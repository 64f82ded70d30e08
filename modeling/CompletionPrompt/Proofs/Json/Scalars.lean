import CompletionPrompt.Json.Token
import Mathlib.Data.List.TakeDrop
import Mathlib.Data.List.TakeWhile
import Mathlib.Tactic.IntervalCases

/-!
# The words and numbers of a JSON text

A text that writes a word or a number is made of letters, digits, signs and points
(`isScalarChar_of_scalar?`), so no other mark can stand in it. A whole number below the overflow of
binary64 is read back from its decimal digits (`scalar?_toDigits`).
-/

namespace CompletionPrompt
namespace Json

/-- A character that words and numbers are made of. -/
def isScalarChar (c : Char) : Bool :=
  c.isAlphanum || c = '-' || c = '+' || c = '.'

theorem isScalarChar_of_isDigit {c : Char} (h : c.isDigit) : isScalarChar c := by
  simp [isScalarChar, Char.isAlphanum, h]

/-- Digits taken from a text: there are some, and the rest follows them. -/
theorem eq_of_takeDigits? {s digits rest : List Char} (h : takeDigits? s = some (digits, rest)) :
    s = digits ++ rest ∧ digits ≠ [] ∧ ∀ c ∈ digits, c.isDigit := by
  simp only [takeDigits?, List.span_eq_takeWhile_dropWhile] at h
  split at h
  · simp at h
  · rename_i hne
    obtain ⟨rfl, rfl⟩ := Prod.mk.inj (Option.some.inj h)
    exact ⟨List.takeWhile_append_dropWhile.symm, by simpa using hne,
      fun c hc => List.mem_takeWhile_imp hc⟩

/-- A text of digits and nothing else is taken as a whole. -/
theorem takeDigits?_of_isDigit {digits : List Char} (hne : digits ≠ [])
    (h : ∀ c ∈ digits, c.isDigit) : takeDigits? digits = some (digits, []) := by
  have htake : digits.takeWhile Char.isDigit = digits := List.takeWhile_eq_self_iff.2 h
  have hdrop : digits.dropWhile Char.isDigit = [] := List.dropWhile_eq_nil_iff.2 h
  simp [takeDigits?, List.span_eq_takeWhile_dropWhile, htake, hdrop, hne]

theorem isScalarChar_of_takeDigits? {s digits rest : List Char}
    (h : takeDigits? s = some (digits, rest)) (hrest : ∀ c ∈ rest, isScalarChar c) :
    s ≠ [] ∧ ∀ c ∈ s, isScalarChar c := by
  obtain ⟨rfl, hne, hdigits⟩ := eq_of_takeDigits? h
  refine ⟨by simp [hne], fun c hc => ?_⟩
  rcases List.mem_append.1 hc with hc | hc
  · exact isScalarChar_of_isDigit (hdigits c hc)
  · exact hrest c hc

theorem isScalarChar_of_exponent? {s : List Char} {e : Option Int} (h : exponent? s = some e) :
    ∀ c ∈ s, isScalarChar c := by
  rcases s with - | ⟨mark, rest⟩
  · simp
  simp only [exponent?] at h
  split at h
  · rename_i hmark
    have hscalar : isScalarChar mark := by rcases hmark with rfl | rfl <;> decide
    split at h
    · rename_i digits htake
      refine List.forall_mem_cons.2 ⟨hscalar, ?_⟩
      -- The digits follow a sign or the mark itself.
      split at htake
      · exact List.forall_mem_cons.2
          ⟨by decide, (isScalarChar_of_takeDigits? htake (by simp)).2⟩
      · exact List.forall_mem_cons.2
          ⟨by decide, (isScalarChar_of_takeDigits? htake (by simp)).2⟩
      · exact (isScalarChar_of_takeDigits? htake (by simp)).2
    · cases h
  · cases h

theorem isScalarChar_of_numberParts? {s : List Char} {p : NumberParts}
    (h : numberParts? s = some p) : s ≠ [] ∧ ∀ c ∈ s, isScalarChar c := by
  simp only [numberParts?] at h
  split at h
  · cases h
  rename_i whole rest htake
  split at h
  · cases h
  have hrest : ∀ c ∈ rest, isScalarChar c := by
    split at h
    · rename_i fraction exponent hfraction hexponent
      split at hfraction
      · rename_i rest
        cases htake' : takeDigits? rest with
        | none => simp [htake'] at hfraction
        | some taken =>
          simp only [htake'] at hexponent
          have hafter := isScalarChar_of_exponent? hexponent
          exact List.forall_mem_cons.2
            ⟨by decide, (isScalarChar_of_takeDigits? htake' hafter).2⟩
      · split at hexponent
        · simp_all
        · exact isScalarChar_of_exponent? hexponent
    · cases h
  have hunsigned := isScalarChar_of_takeDigits? htake hrest
  split at hunsigned
  · exact ⟨by simp, List.forall_mem_cons.2 ⟨by decide, hunsigned.2⟩⟩
  · exact hunsigned

/-- **Words and numbers hold no other mark** than signs and points. -/
theorem isScalarChar_of_scalar? {s : List Char} {v : Value} (h : scalar? s = some v) :
    s ≠ [] ∧ ∀ c ∈ s, isScalarChar c := by
  have hword : ∀ w : List Char, w ≠ [] → w.all isScalarChar → s = w →
      s ≠ [] ∧ ∀ c ∈ s, isScalarChar c := by
    rintro w hne hall rfl
    exact ⟨hne, List.all_eq_true.1 hall⟩
  simp only [scalar?] at h
  split at h
  · rename_i hnull
    exact hword _ (by decide) (by decide) hnull
  split at h
  · rename_i htrue
    exact hword _ (by decide) (by decide) htrue
  split at h
  · rename_i hfalse
    exact hword _ (by decide) (by decide) hfalse
  split at h
  · cases h
  · rename_i hparts
    exact isScalarChar_of_numberParts? hparts

/-- Decimal digits do not start with a zero, but for zero itself. -/
theorem head?_toDigits (n : Nat) : (Nat.toDigits 10 n).head? = some '0' → n = 0 := by
  induction n using Nat.strongRecOn with
  | ind n ih =>
    intro h
    by_cases hn : n < 10
    · rw [Nat.toDigits_of_lt_base hn] at h
      revert h
      interval_cases n <;> decide
    · rw [Nat.toDigits_of_base_le (by decide) (by omega), List.head?_append,
        List.head?_eq_some_head Nat.toDigits_ne_nil, Option.some_or,
        ← List.head?_eq_some_head Nat.toDigits_ne_nil] at h
      have := ih (n / 10) (by omega) h
      omega

/-- A number that is written with digits alone. -/
theorem numberParts?_of_isDigit {digits : List Char} (hne : digits ≠ [])
    (hdigits : ∀ c ∈ digits, c.isDigit) (hzero : digits.head? = some '0' → digits.length = 1) :
    numberParts? digits = some ⟨false, digits, none, none⟩ := by
  have htake := takeDigits?_of_isDigit hne hdigits
  cases digits with
  | nil => exact absurd rfl hne
  | cons c w =>
    have hsign : c ≠ '-' := by
      rintro rfl
      exact absurd (hdigits '-' (by simp)) (by decide)
    have hleading : c = '0' → w = [] := by simpa using hzero
    simpa [numberParts?, hsign, htake, exponent?] using hleading

/-- **A whole number is read back** from its decimal digits, when binary64 can hold it. -/
theorem scalar?_toDigits {n : Nat} (h : n < binary64Overflow) :
    scalar? (Nat.toDigits 10 n) = some (.natural n) := by
  have hdigits : ∀ c ∈ Nat.toDigits 10 n, c.isDigit := fun c hc =>
    Nat.isDigit_of_mem_toDigits (by decide) (by decide) hc
  have hword : ∀ w : List Char, (∃ c ∈ w, c.isDigit = false) → Nat.toDigits 10 n ≠ w := by
    rintro w ⟨c, hc, hnone⟩ rfl
    simp [hdigits c hc] at hnone
  have hzero : (Nat.toDigits 10 n).head? = some '0' → (Nat.toDigits 10 n).length = 1 := fun hn => by
    rw [head?_toDigits n hn]
    rfl
  have hvalue : digitsValue (Nat.toDigits 10 n) = n := Nat.ofDigitChars_ten_toDigits
  have hfits : NumberParts.overflows ⟨false, Nat.toDigits 10 n, none, none⟩ = false := by
    simp only [NumberParts.overflows, Option.getD_none, List.append_nil, hvalue]
    split
    · rfl
    · simpa using h
  simp only [scalar?, numberParts?_of_isDigit Nat.toDigits_ne_nil hdigits hzero, hfits]
  rw [if_neg (hword _ ⟨'n', by decide⟩), if_neg (hword _ ⟨'t', by decide⟩),
    if_neg (hword _ ⟨'f', by decide⟩), hvalue]
  rfl

end Json
end CompletionPrompt
