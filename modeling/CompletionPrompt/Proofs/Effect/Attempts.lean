import CompletionPrompt.Effect
import CompletionPrompt.Proofs.Host.Action
import CompletionPrompt.Proofs.Namespace.Insertion

/-!
# The attempts to execute an import

An import is executed from one directory after another until its module is found. The interpreter
may be any that has a state of its own, and that may leave names behind in the namespace of an
attempt that misses the module. Each attempt gets the namespace of the environment all the same, so
what one leaves behind is not seen by the next. Attempts are made in turn up to the first that does
not miss the module, and this one decides (`EndsAfter`): what it adds to its namespace is the
effect, or its failure is that of all. Where all miss it, the module is not locatable.

To see the attempts, the interpreter notes them down (`recording`), which changes nothing else. One
attempt is one step of the walk (`run_analyzeIn_cons`), and the walk is the induction on the
directories (`exists_endsAfter`, `analyze_tries_in_turn`).
-/

namespace CompletionPrompt

/-- An attempt to execute a statement: what the interpreter is asked, and the namespace it gets. -/
structure Attempt where
  request : Request
  before : Namespace

namespace Attempt

variable {σ : Type} {interpret : Interpreter (Stateful σ)} {a : Attempt} {attempts : List Attempt}
  {s : σ}

/-- What an interpreter answers to an attempt, and its state afterwards. -/
def answer (interpret : Interpreter (Stateful σ)) (a : Attempt) (s : σ) :
    Except Failure (Outcome × Namespace) × σ :=
  (interpret a.request a.before).run s

/-- The state of an interpreter after attempts, made one after the other. -/
def stateAfter (interpret : Interpreter (Stateful σ)) (s : σ) (attempts : List Attempt) : σ :=
  attempts.foldl (fun s a => (a.answer interpret s).2) s

/-- What an interpreter answers to one of several attempts, made one after the other. -/
def answerAt? (interpret : Interpreter (Stateful σ)) (s : σ) (attempts : List Attempt) (n : Nat) :
    Option (Except Failure (Outcome × Namespace)) :=
  attempts[n]?.map fun a => (a.answer interpret (stateAfter interpret s (attempts.take n))).1

theorem answerAt?_zero :
    answerAt? interpret s (a :: attempts) 0 = some (a.answer interpret s).1 := rfl

theorem answerAt?_succ (n : Nat) :
    answerAt? interpret s (a :: attempts) (n + 1) =
      answerAt? interpret (a.answer interpret s).2 attempts n := rfl

/-- The attempts miss their module up to one of them. -/
def MissUpTo (interpret : Interpreter (Stateful σ)) (s : σ) (attempts : List Attempt) (n : Nat) :
    Prop :=
  ∀ k < n, ∃ after, answerAt? interpret s attempts k = some (.ok (.moduleNotFound, after))

theorem missUpTo_succ {after : Namespace} {n : Nat}
    (hfirst : (a.answer interpret s).1 = .ok (.moduleNotFound, after))
    (hrest : MissUpTo interpret (a.answer interpret s).2 attempts n) :
    MissUpTo interpret s (a :: attempts) (n + 1) := by
  intro k hk
  cases k with
  | zero => exact ⟨after, by rw [answerAt?_zero, hfirst]⟩
  | succ k =>
    obtain ⟨later, hlater⟩ := hrest k (by omega)
    exact ⟨later, by rw [answerAt?_succ, hlater]⟩

theorem missUpTo_zero : MissUpTo interpret s attempts 0 :=
  fun _ hk => absurd hk (Nat.not_lt_zero _)

/-- The interpreter that notes down each attempt. -/
def recording (interpret : Interpreter (Stateful σ)) : Interpreter (Stateful (σ × List Attempt)) :=
  fun request before => ExceptT.mk fun (s, made) =>
    let (answer, s) := (interpret request before).run s
    (answer, s, made ++ [⟨request, before⟩])

theorem answer_recording (made : List Attempt) :
    a.answer (recording interpret) (s, made) =
      ((a.answer interpret s).1, (a.answer interpret s).2, made ++ [a]) := rfl

end Attempt

namespace Effect

open Attempt

variable {σ : Type} {interpret : Interpreter (Stateful σ)} {includePrivate : Bool} {depth : Nat}
  {e : Environment} {i : Import} {filename : Path} {s : σ} {a : Attempt} {attempts : List Attempt}

/-- What a directory is tried with. -/
def requestIn (depth : Nat) (e : Environment) (i : Import) (filename d : Path) : Request :=
  { statement := i.statement, filename, searchDirs := [d], environment := e, depth }

/-- The attempt from a directory, in the namespace that binds just the environment. -/
def attemptIn (depth : Nat) (e : Environment) (i : Import) (filename d : Path) : Attempt :=
  ⟨requestIn depth e i filename d, Namespace.seeded e⟩

theorem answer_attemptIn (d : Path) :
    (attemptIn depth e i filename d).answer interpret s =
      (interpret (requestIn depth e i filename d) (Namespace.seeded e)).run s := rfl

/-- **One directory after another:** the walk goes on where the module was not found. -/
theorem run_analyzeIn_cons (interpret : Interpreter (Stateful σ)) (d : Path) (dirs : List Path)
    (s : σ) :
    (analyzeIn interpret includePrivate depth e i filename (d :: dirs) : Stateful σ Effect).run s =
      match (interpret (requestIn depth e i filename d) (Namespace.seeded e)).run s with
      | (.ok (.bound, after), s') =>
        (.ok (ofImpact i.asName (after.diff (Namespace.seeded e)) includePrivate), s')
      | (.ok (.moduleNotFound, _), s') =>
        (analyzeIn interpret includePrivate depth e i filename dirs : Stateful σ Effect).run s'
      | (.error f, s') => (.error f, s') := by
  rw [analyzeIn, Action.run_bind, requestIn]
  generalize ExceptT.run (interpret _ (Namespace.seeded e)) s = ended
  rcases ended with ⟨f | ⟨_ | _, after⟩, s'⟩ <;> rfl

/-- After how many attempts a walk ends, and with which result: attempts are made up to the first
that does not miss its module, and that one decides. -/
inductive EndsAfter (interpret : Interpreter (Stateful σ)) (includePrivate : Bool)
    (e : Environment) (i : Import) (filename : Path) (s : σ) (attempts : List Attempt) :
    Nat → Except Failure Effect → Prop where
  /-- An attempt binds names: those that it added are the effect. -/
  | bound {n : Nat} {after : Namespace} (hmiss : MissUpTo interpret s attempts n)
    (hbound : answerAt? interpret s attempts n = some (.ok (.bound, after))) :
    EndsAfter interpret includePrivate e i filename s attempts (n + 1)
      (.ok (ofImpact i.asName after.added includePrivate))
  /-- An attempt fails, and so does the walk. -/
  | failed {n : Nat} {f : Failure} (hmiss : MissUpTo interpret s attempts n)
    (hfailed : answerAt? interpret s attempts n = some (.error f)) :
    EndsAfter interpret includePrivate e i filename s attempts (n + 1) (.error f)
  /-- Every attempt misses its module. -/
  | missed (hmiss : MissUpTo interpret s attempts attempts.length) :
    EndsAfter interpret includePrivate e i filename s attempts attempts.length
      (.error (.moduleNotLocatable filename))

/-- A walk goes on behind an attempt that misses its module. -/
theorem EndsAfter.cons {n : Nat} {r : Except Failure Effect} {after : Namespace}
    (hfirst : (a.answer interpret s).1 = .ok (.moduleNotFound, after))
    (hrest :
      EndsAfter interpret includePrivate e i filename (a.answer interpret s).2 attempts n r) :
    EndsAfter interpret includePrivate e i filename s (a :: attempts) (n + 1) r := by
  cases hrest with
  | bound hmiss hbound =>
    exact .bound (missUpTo_succ hfirst hmiss) (by rw [answerAt?_succ, hbound])
  | failed hmiss hfailed =>
    exact .failed (missUpTo_succ hfirst hmiss) (by rw [answerAt?_succ, hfailed])
  | missed hmiss => exact .missed (missUpTo_succ hfirst hmiss)

/-- **A walk makes its attempts in turn,** and notes down those and no other. -/
theorem exists_endsAfter (interpret : Interpreter (Stateful σ)) (includePrivate : Bool)
    (depth : Nat) (e : Environment) (i : Import) (filename : Path) (dirs : List Path) (s : σ)
    (made : List Attempt) :
    let attempts := dirs.map (attemptIn depth e i filename)
    ∃ n r, EndsAfter interpret includePrivate e i filename s attempts n r ∧
      (analyzeIn interpret includePrivate depth e i filename dirs : Stateful σ Effect).run s =
        (r, stateAfter interpret s (attempts.take n)) ∧
      (analyzeIn (recording interpret) includePrivate depth e i filename dirs :
          Stateful (σ × List Attempt) Effect).run (s, made) =
        (r, stateAfter interpret s (attempts.take n), made ++ attempts.take n) := by
  induction dirs generalizing s made with
  | nil => exact ⟨0, _, .missed missUpTo_zero, rfl, by rw [List.take_zero, List.append_nil]; rfl⟩
  | cons d dirs ih =>
    intro attempts
    rw [run_analyzeIn_cons, run_analyzeIn_cons, ← answer_attemptIn, ← answer_attemptIn,
      answer_recording]
    rcases hanswer : (attemptIn depth e i filename d).answer interpret s with
      ⟨f | ⟨_ | _, after⟩, s'⟩
    · refine ⟨1, .error f, .failed missUpTo_zero ?_, ?_, ?_⟩
      all_goals simp [attempts, stateAfter, answerAt?_zero, hanswer]
    · refine
        ⟨1, .ok (ofImpact i.asName after.added includePrivate), .bound missUpTo_zero ?_, ?_, ?_⟩
      all_goals simp [attempts, stateAfter, answerAt?_zero, hanswer, Namespace.diff_seeded]
    · obtain ⟨n, r, hends, hrun, hrecord⟩ := ih s' (made ++ [attemptIn depth e i filename d])
      have hfirst : ((attemptIn depth e i filename d).answer interpret s).1 =
          .ok (.moduleNotFound, after) := by
        rw [hanswer]
      refine ⟨n + 1, r, .cons hfirst (by rwa [hanswer]), ?_, ?_⟩
      · simp [attempts, stateAfter, hanswer, hrun]
      · simp [attempts, stateAfter, hanswer, hrecord]

/-- **Attempts are made in turn, each for itself, up to the first that decides.** The directories
are those above the file of the import, innermost first; each is tried with the statement in the
namespace that binds just the environment, whatever the attempts before it left behind in theirs.
The first attempt that does not miss its module is the last: the names that it added to the
namespace are the effect, or its failure is the failure. Where all miss it, or there is no
directory, the module is not locatable. -/
theorem analyze_tries_in_turn (interpret : Interpreter (Stateful σ)) (includePrivate : Bool)
    (depth : Nat) (e : Environment) {i : Import} {filename : Path}
    (hfile : i.filename = some filename) (s : σ) :
    let dirs := searchDirs (filename.parent?.getD Path.empty)
    let attempts := dirs.map (attemptIn depth e i filename)
    ∃ n r, EndsAfter interpret includePrivate e i filename s attempts n r ∧
      (analyze interpret includePrivate depth e i : Stateful σ Effect).run s =
        (r, stateAfter interpret s (attempts.take n)) ∧
      (analyze (recording interpret) includePrivate depth e i :
          Stateful (σ × List Attempt) Effect).run (s, []) =
        (r, stateAfter interpret s (attempts.take n), attempts.take n) := by
  have hresolved : i.resolvedFilename = .ok filename := by
    rw [Import.resolvedFilename, hfile]
  simp only [analyze, hresolved]
  exact exists_endsAfter interpret includePrivate depth e i filename _ s []

/-- The first attempt misses its module and leaves a name behind. The second one does not see that
name, and decides. -/
theorem analyze_tries_twice :
    let i : Import :=
      (Import.unresolved "q.m" "q.m" "from q.m import f" ⟨0, 0, 0, 17⟩).withResolved
        ⟨"/p/q/m.py"⟩ ""
    let e := Environment.ofFile ⟨"/p/main.py"⟩
    let interpret : Interpreter (Stateful Nat) := fun request before => ExceptT.mk fun calls =>
      if request.searchDirs = [⟨"/p"⟩] then
        (.ok (.bound, before.insert "f" (.function ["x"])), calls + 1)
      else (.ok (.moduleNotFound, before.insert "junk" (.object "int")), calls + 1)
    let attempts := [attemptIn 2 e i ⟨"/p/q/m.py"⟩ ⟨"/p/q"⟩, attemptIn 2 e i ⟨"/p/q/m.py"⟩ ⟨"/p"⟩]
    let r := .ok (ofImpact "q.m" ⟨[("f", .function ["x"])]⟩ false)
    i.filename = some ⟨"/p/q/m.py"⟩ ∧
      EndsAfter interpret false e i ⟨"/p/q/m.py"⟩ 0 attempts 2 r ∧
      (analyze (recording interpret) false 2 e i :
          Stateful (Nat × List Attempt) Effect).run (0, []) = (r, 2, attempts) := by
  intro i e interpret attempts r
  have hattempts : (searchDirs ((Path.parent? ⟨"/p/q/m.py"⟩).getD Path.empty)).map
      (attemptIn 2 e i ⟨"/p/q/m.py"⟩) = attempts := by
    have hdirs : searchDirs ((Path.parent? ⟨"/p/q/m.py"⟩).getD Path.empty) =
        [⟨"/p/q"⟩, ⟨"/p"⟩] := by
      decide +kernel
    rw [hdirs]
    rfl
  have hfile : i.filename = some ⟨"/p/q/m.py"⟩ := rfl
  obtain ⟨n, r', hends, -, hrecord⟩ := analyze_tries_in_turn interpret false 2 e hfile 0
  rw [hattempts] at hends hrecord
  have hfirst : answerAt? interpret 0 attempts 0 =
      some (.ok (.moduleNotFound, (Namespace.seeded e).insert "junk" (.object "int"))) := by
    simp [answerAt?, answer, attempts, attemptIn, requestIn, interpret]
  have hsecond : answerAt? interpret 0 attempts 1 =
      some (.ok (.bound, (Namespace.seeded e).insert "f" (.function ["x"]))) := by
    simp [answerAt?, answer, attempts, attemptIn, requestIn, interpret]
  have hcalls : stateAfter interpret 0 attempts = 2 := by
    simp [stateAfter, answer, attempts, attemptIn, requestIn, interpret]
  have hle : ∀ n, MissUpTo interpret 0 attempts n → n ≤ 1 := by
    intro n hmiss
    by_contra hn
    obtain ⟨after, hafter⟩ := hmiss 1 (by omega)
    cases hsecond.symm.trans hafter
  have hsame : n = 2 ∧ r' = r := by
    cases hends with
    | @bound n after hmiss hbound =>
      obtain rfl | rfl := Nat.le_one_iff_eq_zero_or_eq_one.1 (hle n hmiss)
      · cases hfirst.symm.trans hbound
      · cases hsecond.symm.trans hbound
        exact ⟨rfl, rfl⟩
    | @failed n f hmiss hfailed =>
      obtain rfl | rfl := Nat.le_one_iff_eq_zero_or_eq_one.1 (hle n hmiss)
      · cases hfirst.symm.trans hfailed
      · cases hsecond.symm.trans hfailed
    | missed hmiss => exact absurd (hle _ hmiss) (by decide)
  obtain ⟨rfl, rfl⟩ := hsame
  refine ⟨hfile, hends, hrecord.trans ?_⟩
  exact congrArg (r, ·, attempts) hcalls

end Effect
end CompletionPrompt
