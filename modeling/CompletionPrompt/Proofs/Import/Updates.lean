import CompletionPrompt.Proofs.Import.Resolution

/-!
# Files and their texts in an import that changes

An import gets a file and the file's text from `withResolved` or `resolveTo`, and the text once more
from `load`. Reading a file may fail, and a failed `resolveTo` takes the file back but leaves the
text of an earlier one. So an import with a file always has a text, and whether it has both or
neither is decided by its attempts to get a file (`Import.attempts`): it has, exactly when after a
successful attempt the last one succeeded too (`isSome_filename_iff_isSome_sourceText`).
-/

namespace CompletionPrompt
namespace Import

/-- A change to an import, with the host that it meets. -/
inductive Update where
  | withResolved (filename : Path) (sourceText : String)
  | resolveTo (h : Host) (filename : Path)
  | load (h : Host)

namespace Update

/-- The import after a change, be it a success or a failure. -/
def apply (i : Import) : Update → Import
  | .withResolved filename sourceText => i.withResolved filename sourceText
  | .resolveTo h filename => (i.resolveTo h filename).2
  | .load h => (Import.load h i).2

/-- Does an attempt to get a file succeed? Loading is no such attempt. -/
def succeeds? : Update → Option Bool
  | .withResolved _ _ => some true
  | .resolveTo h filename => some (h.files.read h.currentDir filename).isOk
  | .load _ => none

end Update

/-- An import after changes, one after the other. -/
def updated (i : Import) (us : List Update) : Import :=
  us.foldl Update.apply i

/-- The attempts to get a file among some changes, and whether each succeeds. -/
def attempts (us : List Update) : List Bool :=
  us.filterMap Update.succeeds?

/-- Loading gives an import that has a file and a text another text at most. -/
theorem isSome_load (h : Host) {i : Import} (hi : i.filename.isSome → i.sourceText.isSome) :
    (load h i).2.filename = i.filename ∧
      (load h i).2.sourceText.isSome = i.sourceText.isSome := by
  cases hfile : i.filename with
  | none => simp [load, resolvedFilename, hfile]
  | some filename =>
    have htext : i.sourceText.isSome = true := hi (by rw [hfile]; rfl)
    cases hread : h.files.read h.currentDir filename with
    | error fault => simp [load, resolvedFilename, hfile, hread]
    | ok text => simp [load, resolvedFilename, hfile, hread, htext]

/-- **One change.** An attempt decides whether there is a file; a text stays once there is one. -/
theorem isSome_apply (u : Update) {i : Import} (hi : i.filename.isSome → i.sourceText.isSome) :
    (u.apply i).filename.isSome = u.succeeds?.getD i.filename.isSome ∧
      (u.apply i).sourceText.isSome = (i.sourceText.isSome || u.succeeds?.getD false) := by
  cases u with
  | withResolved filename text => exact ⟨rfl, (Bool.or_true _).symm⟩
  | resolveTo h filename =>
    simp only [Update.apply, Update.succeeds?, resolveTo_eq]
    cases h.files.read h.currentDir filename with
    | ok text => exact ⟨rfl, (Bool.or_true _).symm⟩
    | error fault => exact ⟨rfl, (Bool.or_false _).symm⟩
  | load h =>
    obtain ⟨hfile, htext⟩ := isSome_load h hi
    exact ⟨congrArg Option.isSome hfile, htext.trans (Bool.or_false _).symm⟩

/-- An import with a file keeps having a text. -/
theorem isSome_sourceText_apply (u : Update) {i : Import}
    (hi : i.filename.isSome → i.sourceText.isSome) :
    (u.apply i).filename.isSome → (u.apply i).sourceText.isSome := by
  obtain ⟨hfile, htext⟩ := isSome_apply u hi
  rw [hfile, htext]
  cases hu : u.succeeds? with
  | none => simpa using hi
  | some succeeds =>
    intro h
    simpa using Or.inr h

/-- **All changes.** There is a file when the last attempt succeeds, and a text when some attempt
does. -/
theorem isSome_updated (us : List Update) {i : Import}
    (hi : i.filename.isSome → i.sourceText.isSome) :
    ((i.updated us).filename.isSome → (i.updated us).sourceText.isSome) ∧
      (i.updated us).filename.isSome = (attempts us).getLast?.getD i.filename.isSome ∧
      ((i.updated us).sourceText.isSome ↔ i.sourceText.isSome ∨ true ∈ attempts us) := by
  induction us generalizing i with
  | nil => exact ⟨hi, rfl, by simp [updated, attempts]⟩
  | cons u us ih =>
    obtain ⟨hfile, htext⟩ := isSome_apply u hi
    have hrest := ih (isSome_sourceText_apply u hi)
    rw [hfile, htext] at hrest
    show ((updated (u.apply i) us).filename.isSome → (updated (u.apply i) us).sourceText.isSome) ∧
      (updated (u.apply i) us).filename.isSome = _ ∧
      ((updated (u.apply i) us).sourceText.isSome ↔ _)
    refine ⟨hrest.1, hrest.2.1.trans ?_, hrest.2.2.trans ?_⟩
    · cases hu : u.succeeds? <;> simp [attempts, hu, List.getLast?_cons]
    · cases hu : u.succeeds? with
      | none => simp [attempts, hu]
      | some succeeds => cases succeeds <;> simp [attempts, hu]

/-- **When an import has both a file and a text, or neither.** Whatever changes are made to a new
import, and whatever they meet on the host, a file never comes without a text. The text comes
without a file in one case only: some attempt to get a file succeeded, and the last one failed. -/
theorem isSome_filename_iff_isSome_sourceText (module asName statement : String) (span : Span)
    (us : List Update) :
    let i := (unresolved module asName statement span).updated us
    (i.filename.isSome → i.sourceText.isSome) ∧
      ((i.filename.isSome ↔ i.sourceText.isSome) ↔
        (true ∈ attempts us → (attempts us).getLast? = some true)) := by
  obtain ⟨hkept, hfile, htext⟩ := @isSome_updated us (unresolved module asName statement span)
    (fun h => absurd h Bool.false_ne_true)
  have hnew : (unresolved module asName statement span).filename.isSome = false := rfl
  refine ⟨hkept, ?_⟩
  rw [hfile, htext, hnew]
  rcases List.eq_nil_or_concat (attempts us) with h | ⟨before, last, h⟩
  · simp [h, unresolved]
  · cases last <;> simp [h, unresolved]

/-- A file that cannot be read, after another one was: its text stays behind. -/
theorem isSome_sourceText_of_failed_attempt :
    let h : Host :=
      { currentDir := ⟨"/"⟩, files := ⟨[]⟩, respond := fun _ => ⟨[], [], .exit 0⟩, calls := [] }
    let i := (unresolved "pkg.sub" "pkg.sub" "import pkg.sub" ⟨0, 0, 0, 14⟩).updated
      [.withResolved ⟨"/pkg/sub.py"⟩ "x = 1\n", .resolveTo h ⟨"/pkg/never.py"⟩]
    i.filename = none ∧ i.sourceText = some "x = 1\n" ∧
      ¬ (i.filename.isSome ↔ i.sourceText.isSome) := by
  decide +kernel

end Import
end CompletionPrompt
