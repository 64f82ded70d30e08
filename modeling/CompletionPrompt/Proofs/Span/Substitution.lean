import CompletionPrompt.Proofs.Span.Region

/-!
# Replacing several spans at once

`Span.substitute` replaces spans of a text all at once: it copies the stretches of the text between
the spans and puts the replacements where the spans were. Spans that are replaced one after the
other, from the last to the first, give the same text (`replace_substitute`), for an edit leaves
everything before it in its place: what a span above it covers is still the stretch that it covered
in the unedited text (`extract_substitute`). For two spans that is said in full by
`replace_below_keeps_above`.
-/

namespace CompletionPrompt

/-- The stretch of a text from one offset to another. -/
def Text.stretch (text : List Char) (p q : Nat) : List Char :=
  (text.take q).drop p

namespace Span

/-- The rest of a text from an offset on, with spans replaced all at once; the spans stand in source
order. -/
def substituteFrom (text : List Char) : Nat → List (Span × List Char) → List Char
  | p, [] => text.drop p
  | p, (s, r) :: edits =>
    Text.stretch text p (Text.offset text s.start) ++ r ++
      substituteFrom text (Text.offset text s.stop) edits

/-- A text with spans replaced all at once; the spans stand in source order. -/
def substitute (text : List Char) (edits : List (Span × List Char)) : List Char :=
  substituteFrom text 0 edits

theorem stretch_append_stretch {text : List Char} {p q r : Nat} (hpq : p ≤ q) (hqr : q ≤ r) :
    Text.stretch text p q ++ Text.stretch text q r = Text.stretch text p r := by
  have htake : text.take q = (text.take r).take q := by rw [List.take_take, Nat.min_eq_left hqr]
  by_cases hq : q ≤ (text.take r).length
  · rw [Text.stretch, Text.stretch, Text.stretch, htake, ← List.drop_append_of_le_length,
      List.take_append_drop]
    rw [List.length_take_of_le hq]
    exact hpq
  · rw [Text.stretch, Text.stretch, Text.stretch, htake, List.take_of_length_le (by omega),
      List.drop_of_length_le (i := q) (by omega), List.append_nil]

theorem stretch_append_drop {text : List Char} {p q : Nat} (hpq : p ≤ q) :
    Text.stretch text p q ++ text.drop q = text.drop p := by
  have hmax : text.take (max q text.length) = text := List.take_of_length_le (by omega)
  have h := @stretch_append_stretch text p q (max q text.length) hpq (by omega)
  rwa [Text.stretch, Text.stretch, Text.stretch, hmax] at h

/-- A span that fits a text starts at an offset not after the one where it stops. -/
theorem Fits.offset_le {s : Span} {text : List Char} (h : s.Fits text) :
    Text.offset text s.start ≤ Text.offset text s.stop := by
  obtain ⟨a, m, b, rfl, rfl⟩ := fits_iff.1 h
  rw [offset_start_around, offset_stop_around, List.length_append]
  exact Nat.le_add_right _ _

theorem stretch_zero (a b : List Char) : Text.stretch (a ++ b) 0 a.length = a := by
  simp [Text.stretch]

/-- Of two spans that stand apart, one stops at an offset not after the one where the other
starts. -/
theorem EndsBefore.offset_le {s t : Span} {text : List Char} (h : s.EndsBefore t)
    (hs : s.Fits text) (ht : t.Fits text) :
    Text.offset text s.stop ≤ Text.offset text t.start := by
  obtain ⟨a, m, b, rfl, rfl⟩ := fits_iff.1 hs
  obtain ⟨a', m', b', htext, rfl⟩ := fits_iff.1 ht
  rw [List.append_assoc a'] at htext
  rw [EndsBefore, stop_around, start_around, Text.placeLe_endOf_iff htext] at h
  rwa [stop_around, Text.offset_endOf, start_around, htext, Text.offset_endOf]

/-- What stands before the first span is copied. -/
theorem substituteFrom_eq_stretch_append {text : List Char} {p q : Nat}
    {edits : List (Span × List Char)} (hpq : p ≤ q)
    (h : ∀ e ∈ edits, q ≤ Text.offset text e.1.start) :
    substituteFrom text p edits = Text.stretch text p q ++ substituteFrom text q edits := by
  cases edits with
  | nil => exact (stretch_append_drop hpq).symm
  | cons e edits =>
    have hq := h e List.mem_cons_self
    simp only [substituteFrom, ← stretch_append_stretch hpq hq, List.append_assoc]

/-- A span above some edits and its replacement: the edits leave what stands before the span, and
the span itself, in their place. -/
theorem exists_substitute_cons {text : List Char} {s : Span} {edits : List (Span × List Char)}
    (hs : s.Fits text) (hedits : ∀ e ∈ edits, e.1.Fits text)
    (hbefore : ∀ e ∈ edits, s.EndsBefore e.1) :
    ∃ before covered rest, s = around before covered ∧ s.extract text = covered ∧
      substitute text edits = before ++ covered ++ rest ∧
      ∀ r, substitute text ((s, r) :: edits) = before ++ r ++ rest := by
  have hle : ∀ e ∈ edits, Text.offset text s.stop ≤ Text.offset text e.1.start :=
    fun e he => (hbefore e he).offset_le hs (hedits e he)
  obtain ⟨a, m, b, rfl, rfl⟩ := fits_iff.1 hs
  rw [offset_stop_around] at hle
  refine ⟨a, m, substituteFrom (a ++ m ++ b) (a ++ m).length edits, rfl, extract_around a m b,
    ?_, fun r => ?_⟩
  · rw [substitute, substituteFrom_eq_stretch_append (Nat.zero_le _) hle, stretch_zero]
  · rw [substitute, substituteFrom, offset_start_around, offset_stop_around,
      List.append_assoc a m b, stretch_zero]

/-- **Edits below a span leave it in its place.** -/
theorem extract_substitute {text : List Char} {s : Span} {edits : List (Span × List Char)}
    (hs : s.Fits text) (hedits : ∀ e ∈ edits, e.1.Fits text)
    (hbefore : ∀ e ∈ edits, s.EndsBefore e.1) :
    s.extract (substitute text edits) = s.extract text := by
  obtain ⟨a, m, rest, rfl, hm, hsub, -⟩ := exists_substitute_cons hs hedits hbefore
  rw [hm, hsub, extract_around]

/-- Replacing a span above some edits is one more edit. -/
theorem replace_substitute {text : List Char} {s : Span} {edits : List (Span × List Char)}
    (hs : s.Fits text) (hedits : ∀ e ∈ edits, e.1.Fits text)
    (hbefore : ∀ e ∈ edits, s.EndsBefore e.1) (r : List Char) :
    s.replace (substitute text edits) r = substitute text ((s, r) :: edits) := by
  obtain ⟨a, m, rest, rfl, -, hsub, hcons⟩ := exists_substitute_cons hs hedits hbefore
  rw [hcons, hsub, replace_around]

/-- Two spans that stand apart are the places of two stretches of the text. -/
theorem EndsBefore.exists_stretches {a b : Span} {text : List Char} (h : a.EndsBefore b)
    (ha : a.Fits text) (hb : b.Fits text) :
    ∃ before above between below after,
      text = before ++ above ++ (between ++ below ++ after) ∧ a = around before above ∧
        b = around (before ++ above ++ between) below := by
  obtain ⟨before, above, rest, htext, rfl⟩ := fits_iff.1 ha
  obtain ⟨front, below, after, htext', rfl⟩ := fits_iff.1 hb
  have hsame : (before ++ above) ++ rest = front ++ (below ++ after) := by
    rw [← htext, htext', List.append_assoc]
  rw [EndsBefore, stop_around, start_around, Text.placeLe_endOf_iff hsame] at h
  obtain ⟨between, rfl⟩ := List.prefix_of_prefix_length_le ⟨rest, hsame⟩ ⟨_, rfl⟩ h
  exact ⟨before, above, between, below, after, by simp [htext'], rfl, rfl⟩

/-- **An edit leaves the coordinates above it valid.** Of two spans that fit a text and stand apart,
the upper still reads the same after the lower is replaced, by a text with however many line feeds,
and when it is replaced in its turn the text has both regions replaced at once: what stood before,
between and behind them is unchanged. -/
theorem replace_below_keeps_above {a b : Span} {text : List Char} (ha : a.Fits text)
    (hb : b.Fits text) (hab : a.EndsBefore b) (q r : List Char) :
    a.extract (b.replace text r) = a.extract text ∧
    a.replace (b.replace text r) q = substitute text [(a, q), (b, r)] ∧
    ∃ before between after,
      text = before ++ a.extract text ++ (between ++ b.extract text ++ after) ∧
      a = around before (a.extract text) ∧
      b = around (before ++ a.extract text ++ between) (b.extract text) ∧
      a.replace (b.replace text r) q = before ++ q ++ (between ++ r ++ after) := by
  have hfits : ∀ e ∈ [(b, r)], e.1.Fits text := fun e he => List.mem_singleton.1 he ▸ hb
  have hbefore : ∀ e ∈ [(b, r)], a.EndsBefore e.1 := fun e he => List.mem_singleton.1 he ▸ hab
  have hnone : substitute text [] = text := rfl
  have hone : b.replace text r = substitute text [(b, r)] := by
    rw [← replace_substitute hb (List.forall_mem_nil _) (List.forall_mem_nil _) r, hnone]
  refine ⟨hone ▸ extract_substitute ha hfits hbefore, hone ▸ replace_substitute ha hfits hbefore q, ?_⟩
  obtain ⟨before, above, between, below, after, rfl, rfl, rfl⟩ := hab.exists_stretches ha hb
  have htext : before ++ above ++ (between ++ below ++ after) =
      before ++ above ++ between ++ below ++ after := by simp
  have hlower : (around (before ++ above ++ between) below).replace
      (before ++ above ++ (between ++ below ++ after)) r =
        before ++ above ++ (between ++ r ++ after) := by
    rw [htext, replace_around]
    simp
  have hreadBelow : (around (before ++ above ++ between) below).extract
      (before ++ above ++ (between ++ below ++ after)) = below := by rw [htext, extract_around]
  rw [hlower, replace_around, extract_around, hreadBelow]
  exact ⟨before, between, after, rfl, rfl, rfl, rfl⟩

/-- Two spans that touch on one row, behind a character of two bytes; the lower gives way to three
rows. -/
theorem replace_below_keeps_above_of_touching :
    let text := "é: ab\nc".toList
    let a : Span := ⟨0, 4, 0, 5⟩
    let b : Span := ⟨0, 5, 0, 6⟩
    let q := "x".toList
    let r := "\n1\n2".toList
    a.Fits text ∧ b.Fits text ∧ a.EndsBefore b ∧ a.extract text = "a".toList ∧
      a.extract (b.replace text r) = a.extract text ∧
      a.replace (b.replace text r) q = substitute text [(a, q), (b, r)] ∧
      a.replace (b.replace text r) q = "é: x\n1\n2\nc".toList := by
  intro text a b q r
  have ha : a.Fits text := by decide
  have hb : b.Fits text := by decide
  have hab : a.EndsBefore b := by decide
  obtain ⟨hextract, hreplace, -⟩ := replace_below_keeps_above ha hb hab q r
  exact ⟨ha, hb, hab, by decide, hextract, hreplace, by decide⟩

end Span
end CompletionPrompt
