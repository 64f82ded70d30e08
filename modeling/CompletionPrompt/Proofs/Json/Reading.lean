import CompletionPrompt.Json.Reader
import CompletionPrompt.Proofs.Json.Tokens

/-!
# Reading a written value

A value is read back from its tokens exactly when it nests no deeper than the reader allows
(`readNested?_of_tokens?`), so it is read back from its text in either style
(`readNested?_written`, `read?_written`). The reader takes the tokens of a value as a whole: from
wherever a value is expected it comes to where the value has been handed over to what is open around
it, or refuses them where too much is open already (`foldlM_tokens`).
-/

namespace CompletionPrompt
namespace Json

mutual

/-- How many arrays and objects are open at once in a value. -/
def Value.nesting : Value → Nat
  | .array items => 1 + itemsNesting items
  | .object fields => 1 + fieldsNesting fields
  | _ => 0

/-- The greatest nesting among values. -/
def itemsNesting : List Value → Nat
  | [] => 0
  | v :: vs => max v.nesting (itemsNesting vs)

/-- The greatest nesting among fields. -/
def fieldsNesting : List (String × Value) → Nat
  | [] => 0
  | (_, v) :: fields => max v.nesting (fieldsNesting fields)

end

/-- A value does not start with the end of an array. -/
theorem Value.tokens_eq_cons (v : Value) : ∃ t ts, v.tokens = t :: ts ∧ t ≠ .closeBracket := by
  cases v <;> exact ⟨_, _, rfl, Token.noConfusion⟩

/-- An array of at least one item starts with that item. -/
theorem intercalate_itemTokens (v : Value) (vs : List Value) :
    ∃ rest, [Token.comma].intercalate (itemTokens (v :: vs)) = v.tokens ++ rest := by
  cases vs with
  | nil => exact ⟨[], by simp [itemTokens]⟩
  | cons w vs =>
    exact ⟨_, by rw [itemTokens, itemTokens, List.intercalate_cons_cons, List.append_assoc]⟩

namespace Reading

/-- The first item of an array is read like any value. -/
theorem foldlM_item (limit : Nat) (v : Value) (rest : List Token) (frames : List Frame) :
    (v.tokens ++ rest).foldlM (step limit) ⟨.item, frames⟩ =
      (v.tokens ++ rest).foldlM (step limit) ⟨.value, frames⟩ := by
  obtain ⟨t, ts, hv, ht⟩ := v.tokens_eq_cons
  have hstep : step limit ⟨.item, frames⟩ t = step limit ⟨.value, frames⟩ t := by
    cases t <;> first | rfl | exact absurd rfl ht
  rw [hv, List.cons_append, List.foldlM_cons, List.foldlM_cons, hstep]

mutual

/-- **The tokens of a value are taken as a whole,** or refused where the value nests too deep. -/
theorem foldlM_tokens (limit : Nat) : ∀ (v : Value) (frames : List Frame), frames.length ≤ limit →
    v.tokens.foldlM (step limit) ⟨.value, frames⟩ =
      if frames.length + v.nesting ≤ limit then some (deliver v frames) else none
  | .null, _, h => (if_pos h).symm
  | .bool _, _, h => (if_pos h).symm
  | .natural _, _, h => (if_pos h).symm
  | .decimal _, _, h => (if_pos h).symm
  | .string _, _, h => (if_pos h).symm
  | .array items, frames, h => by
    have hpush : step limit ⟨.value, frames⟩ .openBracket =
        if frames.length < limit then some ⟨.item, .array [] :: frames⟩ else none := rfl
    rw [Value.nesting, Value.tokens, List.cons_append, List.foldlM_cons, hpush]
    by_cases hopen : frames.length < limit
    · rw [if_pos hopen, Option.bind_eq_bind, Option.bind_some, List.foldlM_append]
      cases items with
      | nil => simp [itemTokens, itemsNesting, step, Nat.succ_le_of_lt hopen]
      | cons v vs =>
        have hitems := foldlM_items limit (v :: vs) (by simp) [] frames hopen
        obtain ⟨rest, hrest⟩ := intercalate_itemTokens v vs
        rw [hrest] at hitems ⊢
        rw [foldlM_item, hitems]
        split
        · simp [step]
        · rfl
    · rw [if_neg hopen, if_neg (by omega)]
      rfl
  | .object fields, frames, h => by
    have hpush : step limit ⟨.value, frames⟩ .openBrace =
        if frames.length < limit then some ⟨.firstName, .object [] "" :: frames⟩ else none := rfl
    rw [Value.nesting, Value.tokens, List.cons_append, List.foldlM_cons, hpush]
    by_cases hopen : frames.length < limit
    · rw [if_pos hopen, Option.bind_eq_bind, Option.bind_some, List.foldlM_append]
      cases fields with
      | nil => simp [fieldTokens, fieldsNesting, step, Nat.succ_le_of_lt hopen]
      | cons field fields =>
        obtain ⟨last, hfields⟩ := foldlM_fields limit (field :: fields) (by simp) .firstName
          (.inl rfl) [] "" frames hopen
        rw [hfields]
        split
        · simp [step]
        · rfl
    · rw [if_neg hopen, if_neg (by omega)]
      rfl

theorem foldlM_items (limit : Nat) : ∀ vs : List Value, vs ≠ [] →
    ∀ (done : List Value) (frames : List Frame), frames.length < limit →
      ([Token.comma].intercalate (itemTokens vs)).foldlM (step limit)
          ⟨.value, .array done :: frames⟩ =
        if frames.length + (1 + itemsNesting vs) ≤ limit then
          some ⟨.comma, .array (vs.reverse ++ done) :: frames⟩
        else none
  | [], hne, _, _, _ => absurd rfl hne
  | [v], _, done, frames, h => by
    have hv := foldlM_tokens limit v (.array done :: frames) h
    simpa [itemTokens, itemsNesting, deliver, Nat.add_assoc] using hv
  | v :: w :: vs, _, done, frames, h => by
    have hv := foldlM_tokens limit v (.array done :: frames) h
    have hvs := foldlM_items limit (w :: vs) (by simp) (v :: done) frames h
    rw [List.length_cons] at hv
    rw [itemTokens, itemTokens, List.intercalate_cons_cons, ← itemTokens, List.append_assoc,
      List.foldlM_append, hv, itemsNesting]
    by_cases hdeep : frames.length + 1 + v.nesting ≤ limit
    · have hrest : frames.length + (1 + max v.nesting (itemsNesting (w :: vs))) ≤ limit ↔
          frames.length + (1 + itemsNesting (w :: vs)) ≤ limit := by omega
      simp only [if_pos hdeep, hrest]
      simpa [deliver, step] using hvs
    · rw [if_neg hdeep, if_neg (by omega)]
      rfl

theorem foldlM_fields (limit : Nat) : ∀ fields : List (String × Value), fields ≠ [] →
    ∀ expected : Expected, expected = .firstName ∨ expected = .name →
    ∀ (done : List (String × Value)) (name : String) (frames : List Frame), frames.length < limit →
      ∃ last, ([Token.comma].intercalate (fieldTokens fields)).foldlM (step limit)
          ⟨expected, .object done name :: frames⟩ =
        if frames.length + (1 + fieldsNesting fields) ≤ limit then
          some ⟨.comma, .object (fields.reverse ++ done) last :: frames⟩
        else none
  | [], hne, _, _, _, _, _, _ => absurd rfl hne
  | [(n, v)], _, expected, hexpected, done, name, frames, h => by
    have hv := foldlM_tokens limit v (.object done n :: frames) h
    refine ⟨n, ?_⟩
    rcases hexpected with rfl | rfl <;>
      simpa [fieldTokens, fieldsNesting, deliver, step, Nat.add_assoc] using hv
  | (n, v) :: (m, w) :: fields, _, expected, hexpected, done, name, frames, h => by
    have hv := foldlM_tokens limit v (.object done n :: frames) h
    obtain ⟨last, hfields⟩ := foldlM_fields limit ((m, w) :: fields) (by simp) .name (.inr rfl)
      ((n, v) :: done) n frames h
    refine ⟨last, ?_⟩
    have hname : step limit ⟨expected, .object done name :: frames⟩ (.string n) =
        some ⟨.colon, .object done n :: frames⟩ := by
      rcases hexpected with rfl | rfl <;> rfl
    have hcolon : step limit ⟨.colon, .object done n :: frames⟩ .colon =
        some ⟨.value, .object done n :: frames⟩ := rfl
    rw [List.length_cons] at hv
    rw [fieldTokens, fieldTokens, List.intercalate_cons_cons, ← fieldTokens, List.append_assoc,
      List.cons_append, List.cons_append, List.foldlM_cons, hname, Option.bind_eq_bind,
      Option.bind_some, List.foldlM_cons, hcolon, Option.bind_eq_bind, Option.bind_some,
      List.foldlM_append, hv, fieldsNesting]
    by_cases hdeep : frames.length + 1 + v.nesting ≤ limit
    · have hrest : frames.length + (1 + max v.nesting (fieldsNesting ((m, w) :: fields))) ≤ limit ↔
          frames.length + (1 + fieldsNesting ((m, w) :: fields)) ≤ limit := by omega
      simp only [if_pos hdeep, hrest]
      simpa [deliver, step] using hfields
    · rw [if_neg hdeep, if_neg (by omega)]
      rfl

end

end Reading

/-- **A value is read back from its tokens**, in whatever text they stand, exactly when it nests no
deeper than the limit. -/
theorem readNested?_of_tokens? {limit : Nat} {s : List Char} {v : Value}
    (h : tokens? s = some v.tokens) :
    readNested? limit s = if v.nesting ≤ limit then some v else none := by
  have hread := Reading.foldlM_tokens limit v [] (Nat.zero_le limit)
  rw [List.length_nil, Nat.zero_add] at hread
  rw [readNested?, h, Option.bind_some, hread]
  split <;> rfl

/-- **A written value is read back**, in either style, when it nests no deeper than the limit. -/
theorem readNested?_written (style : Style) {limit : Nat} {v : Value} (hv : v.Readable)
    (hlimit : v.nesting ≤ limit) : readNested? limit (v.written style) = some v := by
  rw [readNested?_of_tokens? (tokens?_written style hv), if_pos hlimit]

/-- A written value is read back when it nests no deeper than `Reading.maxNesting`. -/
theorem read?_written (style : Style) {v : Value} (hv : v.Readable)
    (hnesting : v.nesting ≤ Reading.maxNesting) : read? (v.written style) = some v :=
  readNested?_written style hv hnesting

end Json
end CompletionPrompt
