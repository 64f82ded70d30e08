import CompletionPrompt.Proofs.Host.Action
import CompletionPrompt.Proofs.Import.Located

/-!
# Replacements that go on from their statements

A replacement that starts with the statement it replaces puts the rest of itself in behind the
statement. So replacing located imports one after the other inserts texts into the source
(`foldr_spliceOne_eq_insertFrom`), each where a statement stops, and leaves the source around them
as it is. An import may be listed more than once: what is inserted behind its statement then stands
in the order of the list.
-/

namespace CompletionPrompt

namespace Text

variable {α β : Type}

/-- The rest of a list from an offset on, with other lists inserted at offsets of the whole list.
The offsets come in order. -/
def insertFrom (s : List α) : Nat → List (Nat × List α) → List α
  | p, [] => s.drop p
  | p, (q, d) :: insertions => (s.drop p).take (q - p) ++ d ++ insertFrom s q insertions

theorem map_insertFrom (f : α → β) (s : List α) (p : Nat) (insertions : List (Nat × List α)) :
    (insertFrom s p insertions).map f =
      insertFrom (s.map f) p (insertions.map fun e => (e.1, e.2.map f)) := by
  induction insertions generalizing p with
  | nil => simp [insertFrom]
  | cons e insertions ih => simp [insertFrom, ih]

theorem take_append_drop_of_le {p q : Nat} (hpq : p ≤ q) (s : List α) :
    (s.drop p).take (q - p) ++ s.drop q = s.drop p := by
  have hdrop : s.drop q = (s.drop p).drop (q - p) := by rw [List.drop_drop, Nat.add_sub_cancel' hpq]
  rw [hdrop, List.take_append_drop]

/-- What stands before the first insertion is copied. -/
theorem insertFrom_eq_append {s : List α} {p q : Nat} (hpq : p ≤ q)
    {insertions : List (Nat × List α)} (h : ∀ e ∈ insertions, q ≤ e.1) :
    insertFrom s p insertions = (s.drop p).take (q - p) ++ insertFrom s q insertions := by
  cases insertions with
  | nil => exact (take_append_drop_of_le hpq s).symm
  | cons e insertions =>
    obtain ⟨r, d⟩ := e
    have hqr : q ≤ r := h (r, d) List.mem_cons_self
    have hcut : (s.drop p).take (r - p) = (s.drop p).take (q - p) ++ (s.drop q).take (r - q) := by
      rw [show r - p = (q - p) + (r - q) by omega, List.take_add, List.drop_drop,
        Nat.add_sub_cancel' hpq]
    simp only [insertFrom, hcut, List.append_assoc]

end Text

namespace Import

/-- The offset in a source where an import's statement stops. -/
def stopOffset (i : Import) (source : List Char) : Nat :=
  Text.offset source i.span.stop

end Import

namespace Prompt

/-- What a replacement has behind the statement that it starts with. -/
def description (i : Import) (replacement : String) : List Char :=
  replacement.toList.drop i.statement.toList.length

/-- The descriptions of placed imports, each at the offset where the statement stops. -/
def insertions (source : List Char) (placed : List (Import × String)) : List (Nat × List Char) :=
  placed.map fun e => (e.1.stopOffset source, description e.1 e.2)

/-- **Replacing is inserting** when each replacement starts with its statement. -/
theorem foldr_spliceOne_eq_insertFrom {source : List Char} {placed : List (Import × String)}
    (hstands : ∀ e ∈ placed, e.1.StandsIn source)
    (hstatement : ∀ e ∈ placed, e.1.statement.toList <+: e.2.toList)
    (hsorted : placed.Pairwise fun e e' => e.1.stopOffset source ≤ e'.1.stopOffset source) :
    placed.foldr (fun e text => spliceOne text e.1 e.2.toList) source =
      Text.insertFrom source 0 (insertions source placed) := by
  induction placed with
  | nil => simp [insertions, Text.insertFrom]
  | cons e below ih =>
    obtain ⟨i, r⟩ := e
    obtain ⟨hbefore, hsorted⟩ := List.pairwise_cons.1 hsorted
    obtain ⟨hi, hbelow⟩ := List.forall_mem_cons.1 hstands
    obtain ⟨⟨d, hd⟩, hrest⟩ := List.forall_mem_cons.1 hstatement
    have hle : ∀ e ∈ insertions source below, i.stopOffset source ≤ e.1 := by
      intro e he
      obtain ⟨e', he', rfl⟩ := List.mem_map.1 he
      exact hbefore e' he'
    have hdescription : description i r = d := by rw [description, ← hd, List.drop_left]
    rw [List.foldr_cons, ih hbelow hrest hsorted, Text.insertFrom_eq_append (Nat.zero_le _) hle]
    -- The statement and what stands before it are still in their place.
    obtain ⟨a, m, b, htext, hspan⟩ := Span.fits_iff.1 hi.fits
    have hcovered : i.statement.toList = m := by
      rw [hi.statement_eq, hspan, htext, Span.extract_around]
    have hstop : i.stopOffset source = (a ++ m).length := by
      rw [Import.stopOffset, hspan, htext, Span.offset_stop_around]
    have hhead : (source.drop 0).take (i.stopOffset source - 0) = a ++ m := by
      rw [List.drop_zero, Nat.sub_zero, hstop, htext, List.take_left]
    have hthere : i.span.extract (a ++ m ++ Text.insertFrom source (i.stopOffset source)
        (insertions source below)) = i.statement.toList := by
      rw [hspan, Span.extract_around, hcovered]
    show spliceOne _ i r.toList = Text.insertFrom source 0
      ((i.stopOffset source, description i r) :: insertions source below)
    rw [hhead, spliceOne_of_extract_eq _ hthere, hspan, Span.replace_around, Text.insertFrom, hhead,
      hdescription, ← hd, hcovered]
    simp

/-- In source order, located imports stop in order. -/
theorem pairwise_stopOffset [Source.Parser] [Source.LawfulParser] {source : String}
    {imports : List Import} (hlocated : ∀ i ∈ imports, i.IsLocated source) :
    (inSourceOrder imports).Pairwise fun i j =>
      i.stopOffset source.toList ≤ j.stopOffset source.toList := by
  refine (pairwise_le_inSourceOrder imports).imp_of_mem fun {i j} hi hj hle => ?_
  have hi := hlocated i (mem_inSourceOrder.1 hi)
  have hj := hlocated j (mem_inSourceOrder.1 hj)
  rcases hi.eq_or_apart hj with hsame | hapart
  · rw [Import.stopOffset, Import.stopOffset, hsame]
  · have hends := hj.standsIn.endsBefore_of_le hle hapart
    exact (hends.offset_le hi.standsIn.fits hj.standsIn.fits).trans hj.standsIn.fits.offset_le

/-- Each import gives way to what `replace` has for it, from some text and some replacements on. -/
theorem run_foldlM_splice {replace : Import → Action String} {imports : List Import}
    {start text : List Char} {done replacements : List String} {h h' : Host}
    (hrun : (imports.foldlM (fun (text, done) i => do
        let replacement ← replace i
        return (spliceOne text i replacement.toList, done ++ [replacement]))
          (start, done)).run h = (.ok (text, replacements), h')) :
    ∃ new, replacements = done ++ new ∧ new.length = imports.length ∧
      text = (imports.zip new).foldl (fun text e => spliceOne text e.1 e.2.toList) start ∧
      ∀ e ∈ imports.zip new, ∃ h h', (replace e.1).run h = (.ok e.2, h') := by
  induction imports generalizing start done h with
  | nil =>
    rw [List.foldlM_nil, Action.run_pure] at hrun
    cases hrun
    exact ⟨[], by simp⟩
  | cons i imports ih =>
    rw [List.foldlM_cons, Action.run_bind, Action.run_bind] at hrun
    rcases hi : (replace i).run h with ⟨e | r, h₁⟩
    · rw [hi] at hrun
      cases hrun
    · rw [hi] at hrun
      simp only [Action.run_pure] at hrun
      obtain ⟨new, hnew, hlength, htext, hreplaced⟩ := ih hrun
      refine ⟨r :: new, by simp [hnew], by simp [hlength], htext, ?_⟩
      exact List.forall_mem_cons.2 ⟨⟨h, h₁, hi⟩, hreplaced⟩

/-- Each import gives way to what `replace` has for it, one after the other. -/
theorem run_spliceAll {replace : Import → Action String} {source text : List Char}
    {imports : List Import} {replacements : List String} {h h' : Host}
    (hrun : (spliceAll replace source imports).run h = (.ok (text, replacements), h')) :
    replacements.length = imports.length ∧
      text = (imports.zip replacements).foldl (fun text e => spliceOne text e.1 e.2.toList) source ∧
      ∀ e ∈ imports.zip replacements, ∃ h h', (replace e.1).run h = (.ok e.2, h') := by
  obtain ⟨new, hnew, hrest⟩ := run_foldlM_splice hrun
  rw [List.nil_append] at hnew
  exact hnew ▸ hrest

/-- The imports with their replacements, in source order. -/
def placed (imports : List Import) (replacements : List String) : List (Import × String) :=
  ((bottomUp imports).zip replacements).reverse

/-- **The finished text of located imports** is the source with their descriptions inserted. -/
theorem eq_insertFrom_of_run [Source.Parser] [Source.LawfulParser]
    {replace : Import → Action String} {source : String} {text : List Char} {imports : List Import} {replacements : List String} {h h' : Host}
    (hlocated : ∀ i ∈ imports, i.IsLocated source)
    (hstatement : ∀ i ∈ imports, ∀ r h h', (replace i).run h = (.ok r, h') →
      i.statement.toList <+: r.toList)
    (hrun : (spliceAll replace source.toList (bottomUp imports)).run h =
      (.ok (text, replacements), h')) :
    text = Text.insertFrom source.toList 0
        (insertions source.toList (placed imports replacements)) ∧
      (placed imports replacements).map Prod.fst = inSourceOrder imports ∧
      (placed imports replacements).Pairwise (fun e e' =>
        e.1.stopOffset source.toList ≤ e'.1.stopOffset source.toList) ∧
      ∀ e ∈ placed imports replacements, ∃ h h', (replace e.1).run h = (.ok e.2, h') := by
  obtain ⟨hlength, htext, hreplaced⟩ := run_spliceAll hrun
  have hfst : (placed imports replacements).map Prod.fst = inSourceOrder imports := by
    rw [placed, List.map_reverse, List.map_fst_zip hlength.ge, bottomUp_eq_reverse,
      List.reverse_reverse]
  have himports : ∀ e ∈ placed imports replacements, e.1 ∈ imports := fun e he =>
    mem_inSourceOrder.1 (hfst ▸ List.mem_map_of_mem he)
  have hreplaced : ∀ e ∈ placed imports replacements, ∃ h h',
      (replace e.1).run h = (.ok e.2, h') := fun e he => hreplaced e (List.mem_reverse.1 he)
  have hsorted := pairwise_stopOffset hlocated
  rw [← hfst, List.pairwise_map] at hsorted
  refine ⟨?_, hfst, hsorted, hreplaced⟩
  rw [htext, ← List.foldr_reverse]
  refine foldr_spliceOne_eq_insertFrom (fun e he => (hlocated e.1 (himports e he)).standsIn)
    (fun e he => ?_) hsorted
  obtain ⟨h, h', hrun⟩ := hreplaced e he
  exact hstatement e.1 (himports e he) e.2 h h' hrun

end Prompt
end CompletionPrompt
