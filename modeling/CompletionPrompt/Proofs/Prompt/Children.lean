import CompletionPrompt.Proofs.Introspection.Agreement
import CompletionPrompt.Proofs.Prompt.Replacement
import Mathlib.Data.List.Forall2

/-!
# The child processes of a prompt

Where imports are executed, they are described one after the other, from the last span to the first.
What one description does is said once (`run_describe_cases`): it starts one child process, or it
fails. So a run of descriptions gives each import a child of its own, until one fails
(`ChildrenInTurn`, `DescribedInTurn.exists_calls`), and a prompt is such a run
(`describedInTurn_build`). A module that is not found is no failure, and the run goes on
(`build_describes_in_turn`).
-/

namespace CompletionPrompt
namespace Introspection

variable {c : Config} {dir : Path} {h h' : Host} {i : Import}

/-- The end of a child process is a description unless its response is a failure. -/
theorem verdict_eq_failed_iff (p : Plan) (r : Response) :
    Driver.verdict r = .failed ↔ ∃ f, conclude c i p r = .error f := by
  have hoption := toOption_conclude (c := c) (i := i) p r
  cases hverdict : Driver.verdict r <;> cases hend : conclude c i p r <;>
    simp [hverdict, hend, Except.toOption, Import.described] at hoption ⊢

/-- **What one description does:** it starts one child, and fails if that does, or it starts none
and fails. -/
theorem run_describe_cases {r : Except Failure String}
    (hrun : (describe c i dir).run h = (r, h')) :
    (CanRun c dir h ∧
      (Driver.verdict (h.respond h.calls.length) = .failed ↔ ∃ f, r = .error f) ∧
      ∃ call, IsChild c dir h i call ∧ h' = { h with calls := h.calls ++ [call] }) ∨
    (¬ CanRun c dir h ∧ (∃ f, r = .error f) ∧ h' = h) := by
  by_cases hcan : CanRun c dir h
  · obtain ⟨call, hcall, hdescribe⟩ := run_describe_of_canRun hcan i
    obtain ⟨rfl, rfl⟩ := Prod.mk.inj (hdescribe.symm.trans hrun)
    exact .inl ⟨hcan, verdict_eq_failed_iff _ _, call, hcall, rfl⟩
  · obtain ⟨f, hdescribe⟩ := run_describe_of_not_canRun hcan i
    obtain ⟨rfl, rfl⟩ := Prod.mk.inj (hdescribe.symm.trans hrun)
    exact .inr ⟨hcan, ⟨f, rfl⟩, rfl⟩

/-! ### Descriptions in turn -/

/-- Imports are described one after the other, each on the host that the one before it left, until
the first description that fails. Its failure is that of all, and so is the host that it leaves. -/
inductive DescribedInTurn (c : Config) (dir : Path) :
    Host → List Import → Option Failure → Host → Prop where
  | done (h : Host) : DescribedInTurn c dir h [] none h
  | next {h h₁ h₂ : Host} {i : Import} {rest : List Import} {text : String}
    {ending : Option Failure}
    (hfirst : (describe c i dir).run h = (.ok text, h₁))
    (hrest : DescribedInTurn c dir h₁ rest ending h₂) :
    DescribedInTurn c dir h (i :: rest) ending h₂
  | stop {h h₁ : Host} {i : Import} {rest : List Import} {f : Failure}
    (hfirst : (describe c i dir).run h = (.error f, h₁)) :
    DescribedInTurn c dir h (i :: rest) (some f) h₁

/-! ### Children in turn -/

/-- None of the next child processes fails, as many as `n`. -/
def NoneFails (h : Host) (n : Nat) : Prop :=
  ∀ m < n, Driver.verdict (h.respond (h.calls.length + m)) ≠ .failed

/-- The next child process and those after it. -/
theorem noneFails_succ {n : Nat} (call : Call) :
    NoneFails h (n + 1) ↔
      Driver.verdict (h.respond h.calls.length) ≠ .failed ∧
        NoneFails { h with calls := h.calls ++ [call] } n := by
  have hnext : ∀ m, (h.calls ++ [call]).length + m = h.calls.length + (m + 1) := by
    intro m
    rw [List.length_append, List.length_singleton]
    omega
  simp only [NoneFails, hnext]
  exact Nat.forall_lt_succ_left

/-- The calls of the children that imports have in turn, and whether all is well in the end. -/
structure ChildrenInTurn (c : Config) (dir : Path) (h : Host) (imports : List Import)
    (ending : Option Failure) (calls : List Call) : Prop where
  isChild : List.Forall₂ (IsChild c dir h) (imports.take calls.length) calls
  /-- Where a driver can be run, an import has a child exactly when no child before it failed. -/
  lt_length_iff : ∀ n, n < calls.length ↔ n < imports.length ∧ CanRun c dir h ∧ NoneFails h n
  /-- All is well when each import has a child and none failed. -/
  ending_eq_none_iff : ending = none ↔
    calls.length = imports.length ∧ NoneFails h imports.length

namespace ChildrenInTurn

variable {rest : List Import} {ending : Option Failure} {call : Call} {calls : List Call}
  {f : Failure}

/-- Behind a child that does not fail comes the next. -/
theorem cons (hcan : CanRun c dir h) (hcall : IsChild c dir h i call)
    (hgood : Driver.verdict (h.respond h.calls.length) ≠ .failed)
    (hrest : ChildrenInTurn c dir { h with calls := h.calls ++ [call] } rest ending calls) :
    ChildrenInTurn c dir h (i :: rest) ending (call :: calls) where
  isChild := .cons hcall (hrest.isChild.imp fun _ _ => (isChild_later (h.later_calls [call])).1)
  lt_length_iff n := by
    rcases n with _ | n
    · simp [hcan, NoneFails]
    · rw [List.length_cons, List.length_cons, Nat.add_lt_add_iff_right, Nat.add_lt_add_iff_right,
        noneFails_succ call, and_iff_right hgood, hrest.lt_length_iff,
        canRun_later (h.later_calls [call])]
  ending_eq_none_iff := by
    rw [List.length_cons, List.length_cons, Nat.add_right_cancel_iff, noneFails_succ call,
      and_iff_right hgood, hrest.ending_eq_none_iff]

/-- Behind a child that fails comes none. -/
theorem of_failed (hcan : CanRun c dir h) (hcall : IsChild c dir h i call)
    (hfailed : Driver.verdict (h.respond h.calls.length) = .failed) :
    ChildrenInTurn c dir h (i :: rest) (some f) [call] where
  isChild := .cons hcall .nil
  lt_length_iff n := by
    rcases n with _ | n
    · simp [hcan, NoneFails]
    · exact iff_of_false (by simp) fun hall => ((noneFails_succ call).1 hall.2.2).1 hfailed
  ending_eq_none_iff :=
    iff_of_false (by simp) fun hall => ((noneFails_succ call).1 hall.2).1 hfailed

/-- Where no driver can be run, no import has a child. -/
theorem of_not_canRun (hcan : ¬ CanRun c dir h) :
    ChildrenInTurn c dir h (i :: rest) (some f) [] :=
  ⟨.nil, by simp [hcan], by simp⟩

end ChildrenInTurn

/-- **Imports that are described in turn have children in turn,** and nothing else of the host
changes. -/
theorem DescribedInTurn.exists_calls {imports : List Import} {ending : Option Failure}
    (hturn : DescribedInTurn c dir h imports ending h') :
    ∃ calls, h' = { h with calls := h.calls ++ calls } ∧
      ChildrenInTurn c dir h imports ending calls := by
  induction hturn with
  | done h => exact ⟨[], by simp, .nil, by simp, by simp [NoneFails]⟩
  | next hfirst _ ih =>
    obtain ⟨hcan, hverdict, call, hcall, rfl⟩ | ⟨-, ⟨f, hf⟩, -⟩ := run_describe_cases hfirst
    · obtain ⟨calls, rfl, hcalls⟩ := ih
      have hgood := mt hverdict.1 (by simp)
      exact ⟨call :: calls, by simp, .cons hcan hcall hgood hcalls⟩
    · cases hf
  | stop hfirst =>
    obtain ⟨hcan, hverdict, call, hcall, rfl⟩ | ⟨hcan, -, rfl⟩ := run_describe_cases hfirst
    · exact ⟨[call], rfl, .of_failed hcan hcall (hverdict.2 ⟨_, rfl⟩)⟩
    · exact ⟨[], by simp, .of_not_canRun hcan⟩

end Introspection

namespace Action

/-- The failure that a result is, if it is one. -/
def failure? {α : Type} : Except Failure α → Option Failure
  | .ok _ => none
  | .error f => some f

theorem failure?_bind_pure {α β : Type} (x : Action α) (f : α → β) (h : Host) :
    failure? ((x >>= fun a => pure (f a)).run h).1 = failure? (x.run h).1 ∧
      ((x >>= fun a => pure (f a)).run h).2 = (x.run h).2 := by
  rw [run_bind]
  rcases x.run h with ⟨_ | _, _⟩ <;> exact ⟨rfl, rfl⟩

end Action

namespace Builder

open Introspection

/-- Imports that are replaced one after the other are described in turn. -/
theorem describedInTurn_spliceAll (b : Builder) (path : Path) (source : List Char)
    (imports : List Import) (h : Host) :
    DescribedInTurn b.config (driverDir h.currentDir path) h imports
      (Action.failure? ((Prompt.spliceAll (b.replacement .importAnalysis path) source imports).run
        h).1)
      ((Prompt.spliceAll (b.replacement .importAnalysis path) source imports).run h).2 := by
  unfold Prompt.spliceAll
  generalize (source, ([] : List String)) = state
  induction imports generalizing state h with
  | nil => exact .done h
  | cons i rest ih =>
    rw [List.foldlM_cons, Action.run_bind, Action.run_bind, run_replacement, run_annotate]
    rcases hdescribe : (describe b.config i (driverDir h.currentDir path)).run h with
      ⟨f | text, h₁⟩
    · exact .stop hdescribe
    · have hlater := keepsFiles_describe b.config i (driverDir h.currentDir path) h
      rw [hdescribe] at hlater
      refine .next hdescribe ?_
      have hrest := ih h₁
      rw [hlater.currentDir] at hrest
      exact hrest _

theorem describedInTurn_build [Source.Parser] (b : Builder) (t : Target) (imports : List Import)
    (limit : Nat) (h : Host) :
    DescribedInTurn b.config (driverDir h.currentDir t.path) h (Prompt.bottomUp imports)
      (Action.failure? ((b.build (.replaceOneByOne .importAnalysis) t imports limit).run h).1)
      ((b.build (.replaceOneByOne .importAnalysis) t imports limit).run h).2 := by
  have hturn := b.describedInTurn_spliceAll t.path t.source.toList (Prompt.bottomUp imports) h
  obtain ⟨hfailure, hhost⟩ := Action.failure?_bind_pure
    (Prompt.spliceAll (b.replacement .importAnalysis t.path) t.source.toList
      (Prompt.bottomUp imports))
    (fun s => b.truncate s.1
      (if b.config.keepReplacements then Prompt.rowsOfAll s.1 s.2 else []) limit) h
  rw [← hfailure, ← hhost] at hturn
  exact hturn

/-- **A prompt describes its imports one after the other,** from the last span to the first, and
the first description that fails ends it with its failure. Each of these imports has at most one
child process, in turn, and beside the files of before there is only the driver for that import
while its child runs. Where a driver can be run, an import has its child exactly when no child
before it failed: that a module is not found is no failure. -/
theorem build_describes_in_turn [Source.Parser] (b : Builder) (t : Target) {imports : List Import}
    (hspans : (imports.map (·.span)).Nodup) (limit : Nat) (h : Host) :
    let dir := driverDir h.currentDir t.path
    let order := Prompt.bottomUp imports
    let run := (b.build (.replaceOneByOne .importAnalysis) t imports limit).run h
    order.Perm imports ∧
    order.Pairwise (fun i j => j.span.le i.span ∧ j.span ≠ i.span) ∧
    DescribedInTurn b.config dir h order (Action.failure? run.1) run.2 ∧
    ∃ calls, run.2 = { h with calls := h.calls ++ calls } ∧
      ChildrenInTurn b.config dir h order (Action.failure? run.1) calls := by
  intro dir order run
  have hturn := b.describedInTurn_build t imports limit h
  exact ⟨Prompt.bottomUp_perm imports, Prompt.pairwise_bottomUp hspans, hturn, hturn.exists_calls⟩

/-- The module of the last of three imports is not found, and the child of the one before it fails,
so the first has none. -/
theorem build_describes_two_of_three :
    let i (name : String) (row : Nat) : Import :=
      Import.unresolved name name ("import " ++ name) ⟨row, 0, row, 8⟩
    let imports := [i "a" 0, i "b" 1, i "c" 2]
    let c := { Config.default with python := "/bin/py" }
    let b : Builder := ⟨c, String.length⟩
    let t : Target := ⟨⟨"/p/main.py"⟩, "import a\nimport b\nimport c", "def f():"⟩
    let missing : Response := ⟨[], unlocatableSignature.toUTF8.toList, .exit 1⟩
    let failed : Response := ⟨[], "boom".toUTF8.toList, .exit 2⟩
    let h : Host :=
      { currentDir := ⟨"/p"⟩
        files := ⟨[(["bin"], .directory), (["bin", "py"], .program none), (["p"], .directory)]⟩
        respond := fun n => if n = 0 then missing else failed
        calls := [] }
    let run := (b.build (.replaceOneByOne .importAnalysis) t imports 100).run h
    (imports.map (·.span)).Nodup ∧
      ∃ first second, run.2 = { h with calls := [first, second] } ∧
        IsChild c ⟨"/p"⟩ h (i "c" 2) first ∧ IsChild c ⟨"/p"⟩ h (i "b" 1) second ∧
        run.1 = .error (.subprocessFailed "exit status: 2" "boom") := by
  intro i imports c b t missing failed h run
  have hspans : (imports.map (·.span)).Nodup := by decide
  obtain ⟨-, -, -, calls, hcalls, hchildren, hlt, -⟩ :=
    b.build_describes_in_turn t hspans 100 h
  have horder : Prompt.bottomUp imports = [i "c" 2, i "b" 1, i "a" 0] := by
    rw [Prompt.bottomUp_eq_reverse, Prompt.inSourceOrder_eq_of_perm (List.Perm.refl _)
      (by decide) (by decide)]
    rfl
  have hdir : driverDir h.currentDir t.path = ⟨"/p"⟩ := by decide +kernel
  have hcan : CanRun c ⟨"/p"⟩ h :=
    ⟨⟨["p", "import_probe_tmp.py"], by decide +kernel, by decide +kernel, by decide +kernel⟩,
      ⟨⟨"/p"⟩, by decide +kernel⟩⟩
  have hmissing : Driver.verdict missing = .missing := by
    rw [Driver.verdict, if_neg (by decide), if_pos (by decide +kernel)]
  have hfailed : Driver.verdict failed = .failed := by
    rw [Driver.verdict, if_neg (by decide), if_neg (by decide +kernel)]
  rw [horder, hdir] at hchildren hlt
  have hlength : calls.length = 2 := by
    have hsecond : 1 < calls.length := (hlt 1).2 ⟨by simp, hcan, fun m hm => by
      obtain rfl : m = 0 := by omega
      exact fun hverdict => nomatch hmissing.symm.trans hverdict⟩
    have hthird : ¬ 2 < calls.length := fun hthird => ((hlt 2).1 hthird).2.2 1 (by omega) hfailed
    omega
  obtain ⟨first, second, rfl⟩ := List.length_eq_two.1 hlength
  obtain ⟨hfirst, hsecond⟩ : IsChild c ⟨"/p"⟩ h (i "c" 2) first ∧
      IsChild c ⟨"/p"⟩ h (i "b" 1) second := by
    simpa using hchildren
  have hrun : run.1 = .error (.subprocessFailed "exit status: 2" "boom") := by
    show ((b.replaceOneByOne (b.replacement .importAnalysis t.path) t.source imports 100).run
      h).1 = _
    rw [replaceOneByOne, horder]
    decide +kernel
  exact ⟨hspans, first, second, hcalls, hfirst, hsecond, hrun⟩

end Builder
end CompletionPrompt
