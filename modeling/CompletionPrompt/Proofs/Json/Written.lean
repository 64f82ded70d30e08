import CompletionPrompt.Proofs.Json.Scalars
import CompletionPrompt.Proofs.Text.Pieces

/-!
# JSON values on one line

Two styles write a value on one line. `Style.compact` is that of `Value.compact`
(`written_compact`). `Style.ascii` is that of the driver's Python program: a space follows each
comma and colon, and what is outside of U+0020 to U+007E is escaped in UTF-16 units, a character
above U+FFFF as a pair of surrogates.

Neither writes a control character (`printable_written`), so the text of a value is one line and
holds no line feed.
-/

namespace CompletionPrompt
namespace Json

/-- How values are written on one line. -/
inductive Style where
  | compact
  | ascii

namespace Style

/-- What follows a comma or colon. -/
def gap : Style → List Char
  | .compact => []
  | .ascii => [' ']

/-- The UTF-16 units of a character. -/
def units (c : Char) : List Nat :=
  if c.toNat < 0x10000 then [c.toNat]
  else [0xD800 + (c.toNat - 0x10000) / 0x400, 0xDC00 + (c.toNat - 0x10000) % 0x400]

/-- A UTF-16 unit as an escape. -/
def unitEscape (n : Nat) : List Char :=
  ['\\', 'u'] ++ fourDigits n

/-- A character as it stands in a string. -/
def escape : Style → Char → List Char
  | .compact, c => escapeChar c
  | .ascii, c => if c.toNat < 0x7F then escapeChar c else (units c).flatMap unitEscape

/-- A string between double quotes. -/
def literal (style : Style) (s : List Char) : List Char :=
  '"' :: s.flatMap style.escape ++ ['"']

/-- Items with a comma between them. -/
def separated (style : Style) (items : List (List Char)) : List Char :=
  (',' :: style.gap).intercalate items

end Style

mutual

/-- A value on one line. -/
def Value.written (style : Style) : Value → List Char
  | .string s => style.literal s.toList
  | .array items => '[' :: style.separated (writtenItems style items) ++ [']']
  | .object fields => '\x7b' :: style.separated (writtenFields style fields) ++ ['\x7d']
  | v => v.compact

/-- The items of an array, each on one line. -/
def writtenItems (style : Style) : List Value → List (List Char)
  | [] => []
  | v :: vs => v.written style :: writtenItems style vs

/-- The fields of an object, each on one line. -/
def writtenFields (style : Style) : List (String × Value) → List (List Char)
  | [] => []
  | (name, v) :: fields =>
    (style.literal name.toList ++ ':' :: (style.gap ++ v.written style)) ::
      writtenFields style fields

end

mutual

/-- Can the numbers of a value be read back? -/
def Value.Readable : Value → Prop
  | .natural n => n < binary64Overflow
  | .decimal text => scalar? text.toList = some (.decimal text)
  | .array items => ReadableItems items
  | .object fields => ReadableFields fields
  | .null | .bool _ | .string _ => True

/-- Can the numbers of some values be read back? -/
def ReadableItems : List Value → Prop
  | [] => True
  | v :: vs => v.Readable ∧ ReadableItems vs

/-- Can the numbers of some fields be read back? -/
def ReadableFields : List (String × Value) → Prop
  | [] => True
  | (_, v) :: fields => v.Readable ∧ ReadableFields fields

end

mutual

/-- `Value.compact` is one of the styles. -/
theorem written_compact : ∀ v : Value, v.written .compact = v.compact
  | .null => rfl
  | .bool _ => rfl
  | .natural _ => rfl
  | .decimal _ => rfl
  | .string _ => rfl
  | .array items => by
    rw [Value.written, Value.compact, writtenItems_compact items]
    rfl
  | .object fields => by
    rw [Value.written, Value.compact, writtenFields_compact fields]
    rfl

theorem writtenItems_compact : ∀ vs : List Value, writtenItems .compact vs = compactItems vs
  | [] => rfl
  | v :: vs => by rw [writtenItems, compactItems, written_compact v, writtenItems_compact vs]

theorem writtenFields_compact :
    ∀ fields : List (String × Value), writtenFields .compact fields = compactFields fields
  | [] => rfl
  | (name, v) :: fields => by
    rw [writtenFields, compactFields, written_compact v, writtenFields_compact fields]
    rfl

end

/-- Padded digits: the last one stands alone, and the others are padded to one place less. -/
theorem leftpad_toDigits (k n : Nat) :
    (Nat.toDigits 16 n).leftpad (k + 2) '0' =
      (Nat.toDigits 16 (n / 16)).leftpad (k + 1) '0' ++ [(n % 16).digitChar] := by
  by_cases h : n < 16
  · rw [Nat.toDigits_of_lt_base h, Nat.div_eq_of_lt h, Nat.mod_eq_of_lt h]
    simp [List.leftpad, ← List.replicate_succ']
  · rw [Nat.toDigits_of_base_le (by decide) (by omega)]
    simp [List.leftpad]

/-- Four hexadecimal digits write a UTF-16 unit. -/
theorem fourDigits_eq {n : Nat} (h : n < 0x10000) :
    fourDigits n =
      [n / 16 / 16 / 16, n / 16 / 16 % 16, n / 16 % 16, n % 16].map Nat.digitChar := by
  rw [fourDigits, leftpad_toDigits, leftpad_toDigits, leftpad_toDigits,
    Nat.toDigits_of_lt_base (by omega)]
  rfl

/-- The ways in which a character stands in a string. -/
inductive Escaped : Char → List Char → Prop where
  /-- As it is. -/
  | plain {c : Char} (h : 0x20 ≤ c.toNat) (hquote : c ≠ '"') (hslash : c ≠ '\\') : Escaped c [c]
  /-- As an escape of one letter or mark. -/
  | mark {c e : Char} (h : Tokenizing.escaped? e = some c) : Escaped c ['\\', e]
  /-- As a UTF-16 unit. -/
  | unit {c : Char} (h : c.toNat < 0x10000) : Escaped c (Style.unitEscape c.toNat)
  /-- As a pair of surrogates. -/
  | pair {c : Char} (h : 0x10000 ≤ c.toNat) :
    Escaped c (Style.unitEscape (0xD800 + (c.toNat - 0x10000) / 0x400) ++
      Style.unitEscape (0xDC00 + (c.toNat - 0x10000) % 0x400))

theorem escaped_escapeChar (c : Char) : Escaped c (escapeChar c) := by
  have hcontrol : ∀ n, c.toNat = n → c = Char.ofNat n := fun n h => by rw [← h, Char.ofNat_toNat]
  unfold escapeChar
  split_ifs with hquote hslash hfeed hreturn htab hback hform hlow
  · exact .mark (congrArg some hquote.symm)
  · exact .mark (congrArg some hslash.symm)
  · exact .mark (congrArg some hfeed.symm)
  · exact .mark (congrArg some hreturn.symm)
  · exact .mark (congrArg some htab.symm)
  · exact .mark (congrArg some (hcontrol 8 hback).symm)
  · exact .mark (congrArg some (hcontrol 12 hform).symm)
  · exact .unit (by omega)
  · exact .plain (by omega) hquote hslash

/-- Both styles write each character in one of these ways. -/
theorem escaped_escape (style : Style) (c : Char) : Escaped c (style.escape c) := by
  cases style with
  | compact => exact escaped_escapeChar c
  | ascii =>
    simp only [Style.escape, Style.units]
    split_ifs with hlow hunit
    · exact escaped_escapeChar c
    · simpa using Escaped.unit hunit
    · simpa using Escaped.pair (by omega : 0x10000 ≤ c.toNat)

theorem toNat_lt (c : Char) : c.toNat < 0x110000 := by
  have hvalid : c.toNat < 0xD800 ∨ 0xDFFF < c.toNat ∧ c.toNat < 0x110000 := c.valid
  omega

/-- A text without control characters. -/
def Printable (s : List Char) : Prop :=
  ∀ c ∈ s, 0x20 ≤ c.toNat

instance (s : List Char) : Decidable (Printable s) :=
  List.decidableBAll (fun c : Char => 0x20 ≤ c.toNat) s

namespace Printable

theorem nil : Printable [] :=
  fun _ h => absurd h List.not_mem_nil

theorem cons {c : Char} {s : List Char} (hc : 0x20 ≤ c.toNat) (hs : Printable s) :
    Printable (c :: s) :=
  List.forall_mem_cons.2 ⟨hc, hs⟩

theorem append {a b : List Char} (ha : Printable a) (hb : Printable b) : Printable (a ++ b) :=
  fun c hc => (List.mem_append.1 hc).elim (ha c) (hb c)

theorem flatMap {α : Type} {f : α → List Char} {s : List α} (h : ∀ x ∈ s, Printable (f x)) :
    Printable (s.flatMap f) := fun c hc =>
  have ⟨x, hx, hcx⟩ := List.mem_flatMap.1 hc
  h x hx c hcx

theorem intercalate {gap : List Char} (hgap : Printable gap) {items : List (List Char)}
    (h : ∀ item ∈ items, Printable item) : Printable (gap.intercalate items) := fun c hc =>
  (Text.mem_of_mem_intercalate hc).elim (hgap c) fun ⟨item, hitem, hci⟩ => h item hitem c hci

theorem of_isScalarChar {s : List Char} (h : ∀ c ∈ s, isScalarChar c) : Printable s := by
  intro c hc
  by_contra hlow
  have hcontrol : c.toNat < 0x20 := by omega
  have hrange : ∀ n < 0x20, isScalarChar (Char.ofNat n) = false := by decide
  have hnone := hrange c.toNat hcontrol
  rw [Char.ofNat_toNat, h c hc] at hnone
  cases hnone

theorem fourDigits {n : Nat} (h : n < 0x10000) : Printable (fourDigits n) := by
  have hdigit : ∀ d < 16, 0x20 ≤ (Nat.digitChar d).toNat := by decide
  rw [fourDigits_eq h]
  intro c hc
  obtain ⟨d, hd, rfl⟩ := List.mem_map.1 hc
  refine hdigit d ?_
  simp only [List.mem_cons, List.not_mem_nil, or_false] at hd
  omega

theorem unitEscape {n : Nat} (h : n < 0x10000) : Printable (Style.unitEscape n) :=
  cons (by decide) (cons (by decide) (fourDigits h))

theorem of_escaped {c : Char} {s : List Char} (h : Escaped c s) : Printable s := by
  cases h with
  | plain hc => exact cons hc nil
  | mark he =>
    refine cons (by decide) (cons ?_ nil)
    unfold Tokenizing.escaped? at he
    split at he <;> first | decide | cases he
  | unit hc => exact unitEscape hc
  | pair =>
    have := toNat_lt c
    exact (unitEscape (by omega)).append (unitEscape (by omega))

theorem gap (style : Style) : Printable style.gap := by
  cases style <;> simp [Printable, Style.gap]

theorem literal (style : Style) (s : List Char) : Printable (style.literal s) :=
  cons (by decide) ((flatMap fun c _ => of_escaped (escaped_escape style c)).append
    (cons (by decide) nil))

theorem separated (style : Style) {items : List (List Char)}
    (h : ∀ item ∈ items, Printable item) : Printable (style.separated items) :=
  intercalate (cons (by decide) (gap style)) h

end Printable

mutual

/-- A value is written without control characters. -/
theorem printable_written (style : Style) : ∀ v : Value, v.Readable → Printable (v.written style)
  | .null, _ => by simp [Printable, Value.written, Value.compact]
  | .bool true, _ => by simp [Printable, Value.written, Value.compact]
  | .bool false, _ => by simp [Printable, Value.written, Value.compact]
  | .natural n, h => .of_isScalarChar (isScalarChar_of_scalar? (scalar?_toDigits h)).2
  | .decimal text, h => .of_isScalarChar (isScalarChar_of_scalar? h).2
  | .string s, _ => .literal style s.toList
  | .array items, h =>
    .cons (by decide) ((Printable.separated style (printable_writtenItems style items h)).append
      (.cons (by decide) .nil))
  | .object fields, h =>
    .cons (by decide) ((Printable.separated style (printable_writtenFields style fields h)).append
      (.cons (by decide) .nil))

theorem printable_writtenItems (style : Style) :
    ∀ vs : List Value, ReadableItems vs → ∀ item ∈ writtenItems style vs, Printable item
  | [], _ => by simp [writtenItems]
  | v :: vs, h =>
    List.forall_mem_cons.2 ⟨printable_written style v h.1, printable_writtenItems style vs h.2⟩

theorem printable_writtenFields (style : Style) :
    ∀ fields : List (String × Value), ReadableFields fields →
      ∀ item ∈ writtenFields style fields, Printable item
  | [], _ => by simp [writtenFields]
  | (name, v) :: fields, h =>
    List.forall_mem_cons.2
      ⟨(Printable.literal style _).append
        (.cons (by decide) ((Printable.gap style).append (printable_written style v h.1))),
        printable_writtenFields style fields h.2⟩

end

end Json
end CompletionPrompt
