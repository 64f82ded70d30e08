import CompletionPrompt.Driver.Execution

/-!
# Actions that leave the files alone

An action leaves the files alone when the host is afterwards in a later state (`Host.Later`): the
files, the current directory and the responses to come are as before, and calls are only added. What
an action changed before a failure stays, so this is asked of every run, failed ones included. It is
kept by `bind` and by folds over lists (`KeepsFiles.bind`, `KeepsFiles.foldlM`), and starting a
child process has it, as children write no file (`keepsFiles_execute`).
-/

namespace CompletionPrompt

/-- A later state of a host: the same files seen from the same directory, the same search path, the
same responses to come, and maybe more calls. -/
structure Host.Later (h h' : Host) : Prop where
  currentDir : h'.currentDir = h.currentDir
  files : h'.files = h.files
  respond : h'.respond = h.respond
  calls : h.calls <+: h'.calls
  searchPath : h'.searchPath = h.searchPath

theorem Host.Later.refl (h : Host) : h.Later h :=
  ⟨rfl, rfl, rfl, List.prefix_rfl, rfl⟩

theorem Host.Later.trans {h h' h'' : Host} (hfirst : h.Later h') (hnext : h'.Later h'') :
    h.Later h'' :=
  ⟨hnext.currentDir.trans hfirst.currentDir, hnext.files.trans hfirst.files,
    hnext.respond.trans hfirst.respond, hfirst.calls.trans hnext.calls,
    hnext.searchPath.trans hfirst.searchPath⟩

/-- A host that more was called on is in a later state. -/
theorem Host.later_calls (h : Host) (calls : List Call) :
    h.Later { h with calls := h.calls ++ calls } :=
  ⟨rfl, rfl, rfl, List.prefix_append _ _, rfl⟩

/-- A computation over a state that may fail; what it changed before a failure stays. -/
abbrev Stateful (σ : Type) := ExceptT Failure (StateM σ)

namespace Action

variable {α β : Type}

/-- One computation after another: the second runs where the first succeeded, in the state that it
left. -/
theorem run_bind {σ : Type} (x : Stateful σ α) (f : α → Stateful σ β) (s : σ) :
    (x >>= f).run s =
      match x.run s with
      | (.ok a, s') => (f a).run s'
      | (.error e, s') => (.error e, s') := by
  show (ExceptT.bindCont f (x.run s).1) (x.run s).2 = _
  rcases x.run s with ⟨_ | _, _⟩ <;> rfl

theorem run_pure (a : α) (h : Host) : (pure a : Action α).run h = (.ok a, h) := rfl

theorem run_throw (e : Failure) (h : Host) : (throw e : Action α).run h = (.error e, h) := rfl

theorem run_get (h : Host) : (get : Action Host).run h = (.ok h, h) := rfl

theorem run_set (h h' : Host) : (set h' : Action PUnit).run h = (.ok ⟨⟩, h') := rfl

theorem run_currentDir (h : Host) : currentDir.run h = (.ok h.currentDir, h) := rfl

/-- The first step of a fold that fails is the end of the fold. -/
theorem run_foldlM_cons_error {f : β → α → Action β} {s : β} {a : α} {as : List α} {h h' : Host}
    {e : Failure} (hfirst : (f s a).run h = (.error e, h')) :
    (List.foldlM f s (a :: as)).run h = (.error e, h') := by
  rw [List.foldlM_cons, run_bind, hfirst]

/-- The action leaves the files alone, also when it fails. -/
def KeepsFiles (x : Action α) : Prop :=
  ∀ h : Host, h.Later (x.run h).2

namespace KeepsFiles

theorem pure (a : α) : (Pure.pure a : Action α).KeepsFiles :=
  fun h => .refl h

theorem throw (e : Failure) : (MonadExcept.throw e : Action α).KeepsFiles :=
  fun h => .refl h

theorem currentDir : Action.currentDir.KeepsFiles :=
  fun h => .refl h

theorem bind {x : Action α} {f : α → Action β} (hx : x.KeepsFiles)
    (hf : ∀ a, (f a).KeepsFiles) : (x >>= f).KeepsFiles := by
  intro h
  have hfirst := hx h
  rw [run_bind]
  rcases hrun : x.run h with ⟨e | a, h'⟩
  · simpa [hrun] using hfirst
  · exact (show h.Later h' by simpa [hrun] using hfirst).trans (hf a h')

theorem foldlM {f : β → α → Action β} (hf : ∀ s a, (f s a).KeepsFiles) (s : β) (as : List α) :
    (as.foldlM f s).KeepsFiles := by
  induction as generalizing s with
  | nil => exact .pure s
  | cons a as ih => exact .bind (hf s a) ih

end KeepsFiles
end Action

namespace Driver

/-- The command that starts the interpreter in a directory. -/
def command (python : String) (directory : Path) (arguments : List String) : Command :=
  { program := python, arguments, directory, setVariables }

/-- Running the driver is starting a child process and waiting for its end. -/
theorem run_execute (python : String) (directory : Path) (arguments : List String) (h : Host) :
    (execute python directory arguments).run h =
      match h.start? (command python directory arguments) with
      | .error fault => (.error (.spawn python fault), h)
      | .ok place =>
        (.ok (h.respond h.calls.length),
          { h with
            calls := h.calls ++ [⟨command python directory arguments, place, h.files⟩] }) := by
  rw [execute, Action.run_bind, Action.run_get]
  cases hstart : h.start? (command python directory arguments) with
  | error fault =>
    have hrun : h.run (command python directory arguments) = (.error fault, h) := by
      rw [Host.run, hstart]
    rw [command] at hrun
    simp only [hrun, Action.run_bind, Action.run_set, Action.run_throw]
  | ok place =>
    have hrun : h.run (command python directory arguments) =
        (.ok (h.respond h.calls.length),
          { h with
            calls := h.calls ++ [⟨command python directory arguments, place, h.files⟩] }) := by
      rw [Host.run, hstart]
    rw [command] at hrun ⊢
    simp only [hrun, Action.run_bind, Action.run_set, Action.run_pure]

/-- A child process writes no file. -/
theorem keepsFiles_execute (python : String) (directory : Path) (arguments : List String) :
    (execute python directory arguments).KeepsFiles := by
  intro h
  rw [run_execute]
  split
  · exact .refl h
  · exact h.later_calls _

end Driver
end CompletionPrompt
