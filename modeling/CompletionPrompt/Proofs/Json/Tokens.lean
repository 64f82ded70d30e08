import CompletionPrompt.Proofs.Json.Written

/-!
# Cutting a written value into tokens

A written value is cut into its own tokens (`tokens?_written`), whatever the style. The tokenizer
takes one character at a time, and a word or number is only known to be complete when something else
follows it. `Cuts` therefore says of a text what the tokenizer has read of it when it is `Settled`:
between two tokens, or at the end of a word or number.
-/

namespace CompletionPrompt
namespace Json

namespace Tokenizing

/-- The tokenizer stands behind the tokens `ts`, the last one first, where a word or number may just
be complete. -/
inductive Settled : Tokenizing → List Token → Prop where
  | between (ts : List Token) : Settled ⟨ts, .between⟩ ts
  | bare {word : List Char} {v : Value} (h : scalar? word.reverse = some v) (ts : List Token) :
    Settled ⟨ts, .bare word⟩ (.scalar v :: ts)

/-- What starts something else is taken as it is between tokens. -/
theorem Settled.step {s : Tokenizing} {ts : List Token} (hs : s.Settled ts) {c : Char}
    (hc : isBare c = false) : s.step c = some (start ts c) := by
  cases hs with
  | between => rfl
  | bare hword => simp [Tokenizing.step, hc, hword]

theorem Settled.finish {s : Tokenizing} {ts : List Token} (hs : s.Settled ts) :
    s.finish = some ts.reverse := by
  cases hs with
  | between => rfl
  | bare hword => simp [Tokenizing.finish, hword]

/-- A punctuation mark is a token at once. -/
theorem start_of_punctuation? {c : Char} {t : Token} (h : punctuation? c = some t)
    (out : List Token) : start out c = ⟨t :: out, .between⟩ ∧ isBare c = false := by
  have hother : isSpace c = false ∧ c ≠ '"' := by
    constructor
    · by_contra hspace
      simp only [isSpace, Bool.not_eq_false, Bool.or_eq_true, decide_eq_true_eq] at hspace
      rcases hspace with ((rfl | rfl) | rfl) | rfl <;> cases h
    · rintro rfl
      cases h
  simp [start, isBare, hother, h]

theorem start_of_isBare {c : Char} (h : isBare c) (out : List Token) :
    start out c = ⟨out, .bare [c]⟩ := by
  simp only [isBare, Bool.and_eq_true, Bool.not_eq_true', bne_iff_ne, ne_eq,
    Option.isNone_iff_eq_none] at h
  simp [start, h]

theorem isBare_of_isScalarChar {c : Char} (h : isScalarChar c) : isBare c := by
  have hnot : ∀ e, isScalarChar e = false → c ≠ e := by
    rintro e he rfl
    simp [h] at he
  have hnone : [' ', '\n', '\r', '\t', '"', '[', ']', '\x7b', '\x7d', ',', ':'].all
      fun e => !isScalarChar e := by decide
  have hmarks : ∀ e ∈ [' ', '\n', '\r', '\t', '"', '[', ']', '\x7b', '\x7d', ',', ':'], c ≠ e :=
    fun e he => hnot e (by simpa using List.all_eq_true.1 hnone e he)
  simp only [List.forall_mem_cons] at hmarks
  simp [isBare, isSpace, punctuation?, hmarks]

/-- Characters of a word or number that is being read. -/
theorem foldlM_bare (out : List Token) {rest : List Char} (h : ∀ c ∈ rest, isBare c)
    (word : List Char) :
    rest.foldlM step ⟨out, .bare word⟩ = some ⟨out, .bare (rest.reverse ++ word)⟩ := by
  induction rest generalizing word with
  | nil => rfl
  | cons c rest ih =>
    obtain ⟨hc, hrest⟩ := List.forall_mem_cons.1 h
    simp [step, hc, ih hrest]

end Tokenizing

/-- Wherever the tokenizer comes to a text between tokens, it reads these tokens from it. -/
def Cuts (s : List Char) (ts : List Token) : Prop :=
  ∀ out, ∃ z, s.foldlM Tokenizing.step ⟨out, .between⟩ = some z ∧ z.Settled (ts.reverse ++ out)

namespace Cuts

theorem tokens? {s : List Char} {ts : List Token} (h : Cuts s ts) : tokens? s = some ts := by
  obtain ⟨z, hrun, hz⟩ := h []
  simp [Json.tokens?, hrun, hz.finish]

theorem nil : Cuts [] [] :=
  fun out => ⟨_, rfl, .between out⟩

/-- Two texts with a punctuation mark between them. -/
theorem append {a b : List Char} {ts us : List Token} (ha : Cuts a ts) {c : Char} {t : Token}
    (hc : punctuation? c = some t) (hb : Cuts b us) : Cuts (a ++ c :: b) (ts ++ t :: us) := by
  intro out
  obtain ⟨y, hrun, hy⟩ := ha out
  obtain ⟨hstart, hbare⟩ := Tokenizing.start_of_punctuation? hc (ts.reverse ++ out)
  obtain ⟨z, hrest, hz⟩ := hb (t :: (ts.reverse ++ out))
  refine ⟨z, ?_, by simpa using hz⟩
  simp only [List.foldlM_append, List.foldlM_cons, hrun, Option.bind_eq_bind, Option.bind_some,
    hy.step hbare, hstart, hrest]

theorem gap (style : Style) {s : List Char} {ts : List Token} (h : Cuts s ts) :
    Cuts (style.gap ++ s) ts := by
  cases style with
  | compact => exact h
  | ascii => exact h

/-- A word or number. -/
theorem scalar {s : List Char} {v : Value} (h : scalar? s = some v) : Cuts s [.scalar v] := by
  intro out
  obtain ⟨hne, hchars⟩ := isScalarChar_of_scalar? h
  have hbare : ∀ c ∈ s, Tokenizing.isBare c := fun c hc =>
    Tokenizing.isBare_of_isScalarChar (hchars c hc)
  obtain ⟨c, rest, rfl⟩ := List.exists_cons_of_ne_nil hne
  obtain ⟨hc, hrest⟩ := List.forall_mem_cons.1 hbare
  refine ⟨⟨out, .bare (rest.reverse ++ [c])⟩, ?_, .bare (by simpa using h) out⟩
  simp [Tokenizing.step, Tokenizing.start_of_isBare hc, Tokenizing.foldlM_bare out hrest]

end Cuts

/-- A hexadecimal digit is read back. -/
theorem hexValue?_digitChar {d : Nat} (h : d < 16) : hexValue? d.digitChar = some d := by
  revert d
  decide

namespace Tokenizing

/-- The four digits of an escape are read back. -/
theorem foldlM_fourDigits (out : List Token) (done : List Char) (high : Option Nat) {n : Nat}
    (h : n < 0x10000) :
    (fourDigits n).foldlM step ⟨out, .unit done high 4 0⟩ =
      (endUnit done high n).map fun mode => ⟨out, mode⟩ := by
  have hvalue :
      16 * (16 * (16 * (n / 16 / 16 / 16) + n / 16 / 16 % 16) + n / 16 % 16) + n % 16 = n := by
    omega
  simp only [fourDigits_eq h, List.map_cons, List.map_nil, List.foldlM_cons, List.foldlM_nil, step,
    hexValue?_digitChar (show n / 16 / 16 / 16 < 16 by omega),
    hexValue?_digitChar (show n / 16 / 16 % 16 < 16 by omega),
    hexValue?_digitChar (show n / 16 % 16 < 16 by omega),
    hexValue?_digitChar (show n % 16 < 16 by omega)]
  simp [hvalue]

/-- An escape in a string, and one that follows a high surrogate. -/
theorem foldlM_unitEscape (out : List Token) (done : List Char) (high : Option Nat) {n : Nat}
    (h : n < 0x10000) :
    (Style.unitEscape n).foldlM step
        ⟨out, high.elim (.text done) (.lowSlash done)⟩ =
      (endUnit done high n).map fun mode => ⟨out, mode⟩ := by
  cases high with
  | none => simp [Style.unitEscape, step, foldlM_fourDigits out done none h]
  | some high => simp [Style.unitEscape, step, foldlM_fourDigits out done (some high) h]

/-- A UTF-16 unit that is no surrogate stands for a character. -/
theorem endUnit_toNat (done : List Char) (c : Char) :
    endUnit done none c.toNat = some (.text (c :: done)) := by
  have hvalid : c.toNat < 0xD800 ∨ 0xDFFF < c.toNat ∧ c.toNat < 0x110000 := c.valid
  rw [endUnit, if_neg (by omega), if_neg (by omega), Char.ofNat_toNat]

/-- Two surrogates stand for a character above U+FFFF. -/
theorem endUnit_high (done : List Char) {c : Char} (h : 0x10000 ≤ c.toNat) :
    endUnit done none (0xD800 + (c.toNat - 0x10000) / 0x400) =
      some (.lowSlash done (0xD800 + (c.toNat - 0x10000) / 0x400)) := by
  have hc := toNat_lt c
  exact if_pos (by omega)

theorem endUnit_low (done : List Char) {c : Char} (h : 0x10000 ≤ c.toNat) :
    endUnit done (some (0xD800 + (c.toNat - 0x10000) / 0x400))
      (0xDC00 + (c.toNat - 0x10000) % 0x400) = some (.text (c :: done)) := by
  have hvalue : 0x10000 + (0xD800 + (c.toNat - 0x10000) / 0x400 - 0xD800) * 0x400 +
      (0xDC00 + (c.toNat - 0x10000) % 0x400 - 0xDC00) = c.toNat := by omega
  simp only [endUnit, hvalue, Char.ofNat_toNat]
  exact if_pos (by omega)

/-- A character of a string is read back, in whatever way it is written. -/
theorem foldlM_of_escaped {c : Char} {s : List Char} (h : Escaped c s) (out : List Token)
    (done : List Char) : s.foldlM step ⟨out, .text done⟩ = some ⟨out, .text (c :: done)⟩ := by
  cases h with
  | plain h hquote hslash => simp [step, hquote, hslash, h]
  | @mark e he =>
    have hmark : e ≠ 'u' := by
      rintro rfl
      cases he
    simp [step, hmark, he]
  | unit h =>
    simpa only [Option.elim_none, endUnit_toNat, Option.map_some] using
      foldlM_unitEscape out done none h
  | pair h =>
    have hc := toNat_lt c
    have hhigh := foldlM_unitEscape out done none
      (show 0xD800 + (c.toNat - 0x10000) / 0x400 < 0x10000 by omega)
    have hlow := foldlM_unitEscape out done (some (0xD800 + (c.toNat - 0x10000) / 0x400))
      (show 0xDC00 + (c.toNat - 0x10000) % 0x400 < 0x10000 by omega)
    rw [endUnit_high done h, Option.elim_none, Option.map_some] at hhigh
    rw [endUnit_low done h, Option.elim_some, Option.map_some] at hlow
    rw [List.foldlM_append, hhigh, Option.bind_eq_bind, Option.bind_some, hlow]

/-- The characters of a string are read back. -/
theorem foldlM_flatMap_escape (style : Style) (out : List Token) (s done : List Char) :
    (s.flatMap style.escape).foldlM step ⟨out, .text done⟩ =
      some ⟨out, .text (s.reverse ++ done)⟩ := by
  induction s generalizing done with
  | nil => rfl
  | cons c s ih =>
    simp [List.foldlM_append, foldlM_of_escaped (escaped_escape style c), ih]

end Tokenizing

namespace Cuts

/-- A string. -/
theorem literal (style : Style) (s : List Char) :
    Cuts (style.literal s) [.string (String.ofList s)] := by
  intro out
  have hopen : Tokenizing.start out '"' = ⟨out, .text []⟩ := by simp [Tokenizing.start, isSpace]
  refine ⟨⟨.string (String.ofList s) :: out, .between⟩, ?_, .between _⟩
  simp [Style.literal, Tokenizing.step, hopen, Tokenizing.foldlM_flatMap_escape]

/-- Texts with commas between them. -/
theorem separated (style : Style) {items : List (List Char)} {tss : List (List Token)}
    (h : List.Forall₂ Cuts items tss) :
    Cuts (style.separated items) ([Token.comma].intercalate tss) := by
  induction h with
  | nil => exact nil
  | @cons item ts items tss hitem hitems ih =>
    cases hitems with
    | nil => simpa [Style.separated] using hitem
    | @cons next us items tss hnext hitems =>
      have hcomma : punctuation? ',' = some .comma := rfl
      have := hitem.append hcomma (gap style ih)
      simpa [Style.separated, List.intercalate_cons_cons] using this

/-- A text between two marks. -/
theorem enclosed {s : List Char} {ts : List Token} (h : Cuts s ts) {c d : Char} {t u : Token}
    (hc : punctuation? c = some t) (hd : punctuation? d = some u) :
    Cuts (c :: s ++ [d]) (t :: ts ++ [u]) :=
  (nil.append hc h).append hd nil

end Cuts

mutual

/-- The tokens of a value. -/
def Value.tokens : Value → List Token
  | .string s => [.string s]
  | .array items => .openBracket :: [Token.comma].intercalate (itemTokens items) ++ [.closeBracket]
  | .object fields => .openBrace :: [Token.comma].intercalate (fieldTokens fields) ++ [.closeBrace]
  | v => [.scalar v]

/-- The tokens of each item of an array. -/
def itemTokens : List Value → List (List Token)
  | [] => []
  | v :: vs => v.tokens :: itemTokens vs

/-- The tokens of each field of an object. -/
def fieldTokens : List (String × Value) → List (List Token)
  | [] => []
  | (name, v) :: fields => (.string name :: .colon :: v.tokens) :: fieldTokens fields

end

mutual

theorem cuts_written (style : Style) : ∀ v : Value, v.Readable → Cuts (v.written style) v.tokens
  | .null, _ => .scalar rfl
  | .bool true, _ => .scalar rfl
  | .bool false, _ => .scalar rfl
  | .natural _, h => .scalar (scalar?_toDigits h)
  | .decimal _, h => .scalar h
  | .string s, _ => by
    rw [Value.written, Value.tokens, ← String.ofList_toList (s := s)]
    simpa using Cuts.literal style s.toList
  | .array items, h =>
    (Cuts.separated style (cuts_writtenItems style items h)).enclosed rfl rfl
  | .object fields, h =>
    (Cuts.separated style (cuts_writtenFields style fields h)).enclosed rfl rfl

theorem cuts_writtenItems (style : Style) : ∀ vs : List Value, ReadableItems vs →
    List.Forall₂ Cuts (writtenItems style vs) (itemTokens vs)
  | [], _ => .nil
  | v :: vs, h => .cons (cuts_written style v h.1) (cuts_writtenItems style vs h.2)

theorem cuts_writtenFields (style : Style) :
    ∀ fields : List (String × Value), ReadableFields fields →
      List.Forall₂ Cuts (writtenFields style fields) (fieldTokens fields)
  | [], _ => .nil
  | (name, v) :: fields, h => by
    refine .cons ?_ (cuts_writtenFields style fields h.2)
    have hcolon : punctuation? ':' = some .colon := rfl
    simpa using
      (Cuts.literal style name.toList).append hcolon (.gap style (cuts_written style v h.1))

end

/-- **A written value is cut into its own tokens.** -/
theorem tokens?_written (style : Style) {v : Value} (h : v.Readable) :
    tokens? (v.written style) = some v.tokens :=
  (cuts_written style v h).tokens?

end Json
end CompletionPrompt
