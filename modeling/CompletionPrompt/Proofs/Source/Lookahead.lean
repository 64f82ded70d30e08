import Mathlib.Data.List.TakeDrop
import Mathlib.Data.List.TakeWhile
import CompletionPrompt.Proofs.Source.Layout

/-!
# How far lexemes look ahead

What a lexeme is and where it ends is read off the text behind its first character. The reading may
look at characters that are no part of the lexeme, but these settle nothing unless they make it
longer: a length that is read off a text is the same for a beginning of the text, or it goes beyond
that beginning (`IsLocal`). A run of characters of one class has such a length (`isLocal_takeWhile`),
and so has a string literal, however deep the fields inside it: what a character does there depends
on the characters behind it only where it skips them (`isLocal_closeLength`).

So a source that is cut off between two lexemes has the lexemes before the cut (`lexemes_append`), and
its pieces in their places (`pieces_append`). There is one exception: a backslash is a continuation at
the end of a source, and a mark in front of anything but the end of its row.
-/

namespace CompletionPrompt
namespace Source

/-- A length that is read off a text is settled by the text that it measures: for a beginning of a
text it is the same, or it goes beyond that beginning. -/
def IsLocal (f : List Char → Nat) : Prop :=
  ∀ u v, f u = f (u ++ v) ∨ u.length < f (u ++ v)

theorem isLocal_takeWhile (p : Char → Bool) : IsLocal fun s => (s.takeWhile p).length := by
  intro u v
  simp only [List.takeWhile_append]
  split
  · rename_i hall
    rw [List.length_append]
    omega
  · exact .inl rfl

theorem isPrefixOf_pair_append (a b : Char) (u v : List Char) :
    [a, b].isPrefixOf u = [a, b].isPrefixOf (u ++ v) ∨
      u.length < 2 ∧ [a, b].isPrefixOf (u ++ v) = true := by
  rcases u with _ | ⟨c, _ | ⟨d, u⟩⟩
  · cases h : [a, b].isPrefixOf v <;> simp [h]
  · cases h : [a, b].isPrefixOf (c :: v) <;> simp_all [List.isPrefixOf]
  · exact .inl (by simp [List.isPrefixOf])

/-! ### Inside a literal -/

theorem quotingOf_append (letters : List Char) (quote : Char) (u v : List Char) :
    quotingOf letters quote u = quotingOf letters quote (u ++ v) ∨
      u.length < (quotingOf letters quote (u ++ v)).moreQuotes := by
  rcases isPrefixOf_pair_append quote quote u v with h | ⟨hlength, h⟩
  · left
    rw [quotingOf, quotingOf, h]
  · right
    rw [quotingOf, Quoting.moreQuotes, h]
    exact hlength

/-- What stands behind a protected character matters where the two are the end of a row or open the
name of a character. -/
theorem protectedLength_cons (q : Quoting) {c : Char} {s : List Char}
    (hreturn : ¬ (c = '\r' ∧ s.head? = some '\n'))
    (hname : ¬ (c = 'N' ∧ s.head? = some '\x7b')) :
    protectedLength q (c :: s) = protectedLength q [c] := by
  by_cases hfeed : c = '\n'
  · rw [hfeed]
    rfl
  · rw [protectedLength.eq_4 q c s (fun _ hc hs => hreturn ⟨hc, by rw [hs]; rfl⟩) hfeed
      (fun _ hc hs => hname ⟨hc, by rw [hs]; rfl⟩),
      protectedLength.eq_4 q c [] (by simp) hfeed (by simp)]

theorem protectedLength_name (q : Quoting) (s : List Char) :
    protectedLength q ('N' :: '\x7b' :: s) =
      if q.formatted && !q.raw then (s.takeWhile (· != '\x7d')).length + 3 else 0 :=
  rfl

theorem isLocal_protectedLength {q : Quoting} (hq : isQuote q.quote = true) :
    IsLocal (protectedLength q) := by
  have hN : 'N' ≠ q.quote := by
    intro h
    rw [← h] at hq
    exact absurd hq (by decide)
  intro u v
  cases u with
  | nil =>
    rw [List.nil_append, protectedLength, List.length_nil]
    omega
  | cons c u =>
    rw [List.cons_append]
    by_cases hreturn : c = '\r' ∧ (u ++ v).head? = some '\n'
    · obtain ⟨rfl, hhead⟩ := hreturn
      cases u with
      | nil =>
        obtain ⟨v, rfl⟩ := List.head?_eq_some_iff.1 hhead
        exact .inr (Nat.lt_succ_self 1)
      | cons d u =>
        obtain rfl := Option.some.inj hhead
        exact .inl rfl
    by_cases hname : c = 'N' ∧ (u ++ v).head? = some '\x7b'
    · obtain ⟨rfl, hhead⟩ := hname
      cases u with
      | nil =>
        obtain ⟨v, rfl⟩ := List.head?_eq_some_iff.1 hhead
        have halone : protectedLength q ['N'] = 0 := by simp [protectedLength, hN]
        rw [List.nil_append, halone, protectedLength_name, List.length_singleton]
        split <;> omega
      | cons d u =>
        obtain rfl := Option.some.inj hhead
        have hlength := isLocal_takeWhile (· != '\x7d') u v
        rw [List.cons_append, protectedLength_name, protectedLength_name, List.length_cons,
          List.length_cons]
        dsimp only at hlength
        split <;> omega
    · left
      rw [protectedLength_cons q hreturn hname, protectedLength_cons q]
      · exact fun h => hreturn ⟨h.1, by rw [List.head?_append, h.2, Option.some_or]⟩
      · exact fun h => hname ⟨h.1, by rw [List.head?_append, h.2, Option.some_or]⟩

/-- The texts that are open were opened by quotes. -/
def IsQuoted (inside : List Inside) : Prop :=
  ∀ q, .text q ∈ inside → isQuote q.quote = true

@[simp] theorem isQuoted_nil : IsQuoted [] := by simp [IsQuoted]

@[simp] theorem isQuoted_cons_text {q : Quoting} {inside : List Inside} :
    IsQuoted (.text q :: inside) ↔ isQuote q.quote = true ∧ IsQuoted inside := by
  simp [IsQuoted]

@[simp] theorem isQuoted_cons_code {brackets : Nat} {word : List Char} {inside : List Inside} :
    IsQuoted (.code brackets word :: inside) ↔ IsQuoted inside := by
  simp [IsQuoted]

@[simp] theorem isQuoted_cons_format {inside : List Inside} :
    IsQuoted (.format :: inside) ↔ IsQuoted inside := by
  simp [IsQuoted]

section
variable (c : Char) {outside : List Inside}

theorem textStep_append {q : Quoting} (hq : isQuote q.quote = true) (outside : List Inside)
    (u v : List Char) :
    textStep q c u outside = textStep q c (u ++ v) outside ∨
      ∃ skip inside, textStep q c (u ++ v) outside = some (skip, inside) ∧ u.length < skip := by
  unfold textStep
  split
  · rcases isLocal_protectedLength hq u v with h | h
    · exact .inl (by rw [h])
    · exact .inr ⟨_, _, rfl, h⟩
  split
  · split
    · exact .inl rfl
    · rcases isPrefixOf_pair_append q.quote q.quote u v with h | ⟨hlength, h⟩
      · exact .inl (by rw [h])
      · exact .inr ⟨2, outside, by rw [if_pos h], hlength⟩
  split
  · cases u with
    | nil =>
      by_cases hhead : v.head? = some c
      · exact .inr ⟨1, .text q :: outside, by rw [List.nil_append, if_pos hhead], Nat.one_pos⟩
      · exact .inl (by simp [hhead])
    | cons d u => exact .inl rfl
  · exact .inl rfl

theorem isQuoted_textStep {c : Char} {q : Quoting} {s : List Char} {inside : List Inside} {skip : Nat}
    (h : textStep q c s outside = some (skip, inside)) (hquoted : IsQuoted (.text q :: outside)) :
    IsQuoted inside := by
  have houtside : IsQuoted outside := (isQuoted_cons_text.1 hquoted).2
  have hcode : IsQuoted (.code 0 [] :: .text q :: outside) := isQuoted_cons_code.2 hquoted
  have hnext : ∀ {n : Nat} {next : List Inside}, some (n, next) = some (skip, inside) →
      IsQuoted next → IsQuoted inside := fun h hquoted =>
    (Prod.mk.inj (Option.some.inj h)).2 ▸ hquoted
  unfold textStep at h
  split at h
  · exact hnext h hquoted
  split at h
  · split at h
    · exact hnext h houtside
    split at h
    · exact hnext h houtside
    · exact hnext h hquoted
  split at h
  · split at h
    · exact hnext h hquoted
    split at h
    · exact hnext h hcode
    · exact hnext h hquoted
  split at h
  · cases h
  · exact hnext h hquoted

variable (brackets : Nat) (word : List Char)

theorem codeStep_append (outside : List Inside) (u v : List Char) :
    codeStep brackets word c u outside = codeStep brackets word c (u ++ v) outside ∨
      u.length < (codeStep brackets word c (u ++ v) outside).1 := by
  unfold codeStep
  split
  · rcases quotingOf_append word c u v with h | h
    · exact .inl (by rw [h])
    · exact .inr h
  split
  · exact .inl rfl
  split
  · exact .inl rfl
  split
  · exact .inl rfl
  split
  · exact .inl rfl
  split
  · exact (isLocal_takeWhile (· != '\n') u v).imp_left fun h => congrArg (·, _) h
  · exact .inl rfl

theorem isQuoted_codeStep (s : List Char) (h : IsQuoted outside) :
    IsQuoted (codeStep brackets word c s outside).2 := by
  unfold codeStep
  split
  · rename_i hquote
    exact isQuoted_cons_text.2 ⟨hquote, isQuoted_cons_code.2 h⟩
  repeat' split
  all_goals simpa using h

theorem isQuoted_formatStep (h : IsQuoted outside) : IsQuoted (formatStep c outside) := by
  unfold formatStep
  repeat' split
  all_goals simpa using h

end

/-- What is skipped belongs to the literal. -/
theorem le_closeLength (skip : Nat) (inside : List Inside) (s : List Char) :
    min skip s.length ≤ closeLength skip inside s := by
  induction s generalizing skip with
  | nil => simp
  | cons c s ih =>
    cases skip with
    | zero => simp
    | succ skip =>
      have hrest := ih skip
      rw [closeLength, List.length_cons]
      omega

/-- **Where a literal ends is settled inside it.** -/
theorem isLocal_closeLength (skip : Nat) {inside : List Inside} (h : IsQuoted inside) :
    IsLocal (closeLength skip inside) := by
  intro u v
  by_cases hv : v = []
  · rw [hv, List.append_nil]
    exact .inl rfl
  have hpos : 0 < v.length := List.length_pos_iff.2 hv
  induction u generalizing skip inside with
  | nil =>
    have hnil : closeLength skip inside [] = 0 := by cases skip <;> cases inside <;> rfl
    rw [List.nil_append, List.length_nil, hnil]
    omega
  | cons c u ih =>
    -- a step that looks beyond the beginning skips what it looks at
    have hbeyond : ∀ skip inside, u.length < skip →
        u.length < closeLength skip inside (u ++ v) := by
      intro skip inside hskip
      have hle := le_closeLength skip inside (u ++ v)
      rw [List.length_append] at hle
      omega
    rw [List.cons_append, List.length_cons]
    cases skip with
    | succ skip =>
      rw [closeLength, closeLength]
      have hrest := ih skip h
      omega
    | zero =>
      cases inside with
      | nil => exact .inl rfl
      | cons i outside =>
        cases i with
        | text q =>
          simp only [closeLength]
          rcases textStep_append c (isQuoted_cons_text.1 h).1 outside u v with
            hstep | ⟨skip, inside, hstep, hskip⟩
          · rw [hstep]
            cases hnext : textStep q c (u ++ v) outside with
            | none => exact .inl rfl
            | some next =>
              have hrest := ih next.1 (isQuoted_textStep hnext h)
              dsimp only
              omega
          · have hlong := hbeyond skip inside hskip
            rw [hstep]
            dsimp only
            omega
        | code brackets word =>
          simp only [closeLength]
          rcases codeStep_append c brackets word outside u v with hstep | hskip
          · have hrest := ih (codeStep brackets word c (u ++ v) outside).1
              (isQuoted_codeStep c brackets word (u ++ v) (isQuoted_cons_code.1 h))
            rw [hstep]
            omega
          · have hlong := hbeyond _ (codeStep brackets word c (u ++ v) outside).2 hskip
            omega
        | format =>
          simp only [closeLength]
          have hrest := ih 0 (isQuoted_formatStep c (isQuoted_cons_format.1 h))
          omega

theorem isLocal_literalLength (letters : List Char) {quote : Char} (h : isQuote quote = true) :
    IsLocal (literalLength letters quote) := by
  intro u v
  simp only [literalLength]
  rcases quotingOf_append letters quote u v with hq | hq
  · rw [hq]
    exact isLocal_closeLength _ (isQuoted_cons_text.2 ⟨h, isQuoted_nil⟩) u v
  · by_cases hv : v = []
    · rw [hv, List.append_nil]
      exact .inl rfl
    · have hle := le_closeLength (quotingOf letters quote (u ++ v)).moreQuotes
        [.text (quotingOf letters quote (u ++ v))] (u ++ v)
      have hpos := List.length_pos_iff.2 hv
      rw [List.length_append] at hle
      omega

/-! ### Words and marks -/

/-- A text starts with the rest of a word, which nothing or another character ends. -/
theorem exists_wordChars_append (s : List Char) :
    ∃ word rest, s = word ++ rest ∧ (∀ d ∈ word, isWordChar d = true) ∧
      (rest = [] ∨ ∃ d behind, rest = d :: behind ∧ isWordChar d = false) := by
  refine ⟨s.takeWhile isWordChar, s.dropWhile isWordChar, List.takeWhile_append_dropWhile.symm,
    fun d hd => List.all_eq_true.1 List.all_takeWhile d hd, ?_⟩
  cases h : s.dropWhile isWordChar with
  | nil => exact .inl rfl
  | cons d behind =>
    have hd := List.head?_dropWhile_not isWordChar s
    rw [h] at hd
    exact .inr ⟨d, behind, rfl, hd⟩

theorem wordOrLiteral_word {word : List Char} (c : Char) (h : ∀ d ∈ word, isWordChar d = true) :
    wordOrLiteral c word = (.word, word.length) := by
  rw [wordOrLiteral, List.span_eq_takeWhile_dropWhile, List.takeWhile_eq_self_iff.2 h,
    List.dropWhile_eq_nil_iff.2 h]

theorem wordOrLiteral_append_cons {word : List Char} {d : Char} (c : Char)
    (h : ∀ d ∈ word, isWordChar d = true) (hd : isWordChar d = false) (behind : List Char) :
    wordOrLiteral c (word ++ d :: behind) =
      if isQuote d && (c :: word).all isLiteralLetter then
        (.literal, word.length + 1 + literalLength (c :: word) d behind)
      else (.word, word.length) := by
  rw [wordOrLiteral, List.span_eq_takeWhile_dropWhile, List.takeWhile_append_of_pos h,
    List.takeWhile_cons_of_neg (by simp [hd]), List.dropWhile_append_of_pos h,
    List.dropWhile_cons_of_neg (by simp [hd]), List.append_nil]

theorem wordOrLiteral_append (c : Char) (u v : List Char) :
    wordOrLiteral c u = wordOrLiteral c (u ++ v) ∨ u.length < (wordOrLiteral c (u ++ v)).2 := by
  obtain ⟨word, rest, rfl, hword, rfl | ⟨d, behind, rfl, hd⟩⟩ := exists_wordChars_append u
  · -- the beginning is all word characters: it is the word unless the word goes on behind it
    obtain ⟨more, rest, rfl, hmore, hrest⟩ := exists_wordChars_append v
    have hwhole : ∀ d ∈ word ++ more, isWordChar d = true := fun d hd =>
      (List.mem_append.1 hd).elim (hword d) (hmore d)
    have hsame : (Kind.word, word.length) = (Kind.word, (word ++ more).length) ∨
        word.length < (word ++ more).length := by
      rw [List.length_append]
      rcases Nat.eq_zero_or_pos more.length with h | h
      · exact .inl (by rw [h, Nat.add_zero])
      · exact .inr (Nat.lt_add_of_pos_right h)
    rw [List.append_nil, ← List.append_assoc, wordOrLiteral_word c hword]
    rcases hrest with rfl | ⟨d, behind, rfl, hd⟩
    · rwa [List.append_nil, wordOrLiteral_word c hwhole]
    · rw [wordOrLiteral_append_cons c hwhole hd]
      split
      · right
        rw [List.length_append]
        dsimp only
        omega
      · exact hsame
  · rw [List.append_assoc, List.cons_append, wordOrLiteral_append_cons c hword hd,
      wordOrLiteral_append_cons c hword hd, List.length_append, List.length_cons]
    split
    · rename_i hliteral
      have hlocal := isLocal_literalLength (c :: word) (Bool.and_eq_true_iff.1 hliteral).1 behind v
      rcases hlocal with h | h
      · exact .inl (by rw [h])
      · right
        dsimp only
        omega
    · exact .inl rfl

theorem longMark_eq (c : Char) (s : List Char) :
    longMark c s =
      if c = '.' ∧ ['.', '.'].isPrefixOf s = true then 2
      else if c = ':' ∧ s.head? = some '=' then 1 else 0 := by
  unfold longMark
  split
  · rw [if_pos ⟨rfl, rfl⟩]
  · rfl
  · rename_i hdots hequals
    rw [if_neg, if_neg]
    · rintro ⟨rfl, hs⟩
      obtain ⟨s, rfl⟩ := List.head?_eq_some_iff.1 hs
      exact hequals s rfl rfl
    · rintro ⟨rfl, hs⟩
      obtain ⟨s, rfl⟩ := Text.isPrefixOf_eq_true_iff.1 hs
      exact hdots s rfl rfl

theorem isLocal_longMark (c : Char) : IsLocal (longMark c) := by
  intro u v
  cases u with
  | nil =>
    have hnil : longMark c [] = 0 := by simp [longMark_eq]
    rw [hnil, List.nil_append, List.length_nil]
    omega
  | cons d u =>
    rw [longMark_eq, longMark_eq, List.cons_append, List.head?_cons, List.head?_cons]
    rcases isPrefixOf_pair_append '.' '.' (d :: u) v with h | ⟨hlength, h⟩
    · exact .inl (by rw [h, List.cons_append])
    · by_cases hc : c = '.'
      · exact .inr (by rwa [if_pos ⟨hc, h⟩])
      · exact .inl (by simp [hc])

theorem measure_backslash {d : Char} {s : List Char} (hfeed : d ≠ '\n')
    (hreturn : ¬ (d = '\r' ∧ s.head? = some '\n')) : measure '\\' (d :: s) = (.mark, 0) := by
  unfold measure
  rw [if_neg (by decide), if_neg (by decide), if_pos rfl]
  split
  · rename_i h
    exact absurd (List.cons.inj h).1 hfeed
  · rename_i h
    obtain ⟨hd, rfl⟩ := List.cons.inj h
    exact absurd ⟨hd, rfl⟩ hreturn
  · rename_i h
    cases h
  · rfl

theorem measure_backslash_append {u : List Char} (hne : u ≠ []) (v : List Char) :
    measure '\\' u = measure '\\' (u ++ v) ∨ u.length < (measure '\\' (u ++ v)).2 := by
  obtain ⟨d, u, rfl⟩ := List.exists_cons_of_ne_nil hne
  rw [List.cons_append]
  by_cases hfeed : d = '\n'
  · rw [hfeed]
    exact .inl rfl
  by_cases hreturn : d = '\r' ∧ (u ++ v).head? = some '\n'
  · obtain ⟨rfl, hhead⟩ := hreturn
    cases u with
    | nil =>
      obtain ⟨v, rfl⟩ := List.head?_eq_some_iff.1 hhead
      exact .inr (Nat.lt_succ_self 1)
    | cons e u =>
      obtain rfl := Option.some.inj hhead
      exact .inl rfl
  · left
    rw [measure_backslash hfeed hreturn, measure_backslash hfeed]
    exact fun h => hreturn ⟨h.1, by rw [List.head?_append, h.2, Option.some_or]⟩

/-- A backslash that is all of a lexeme, but not all that is left, is a mark. -/
theorem measure_backslash_eq_mark {s : List Char} (hne : s ≠ []) (h : (measure '\\' s).2 = 0) :
    measure '\\' s = (.mark, 0) := by
  obtain ⟨d, s, rfl⟩ := List.exists_cons_of_ne_nil hne
  refine measure_backslash ?_ ?_
  · rintro rfl
    exact Nat.one_ne_zero h
  · rintro ⟨rfl, hs⟩
    obtain ⟨s, rfl⟩ := List.head?_eq_some_iff.1 hs
    exact Nat.succ_ne_zero 1 h

/-! ### The beginning of a source -/

/-- **What a character starts is settled by the text that it takes up,** save that a backslash at the
end is a continuation. -/
theorem measure_append {c : Char} {u : List Char} (hend : ¬ (c = '\\' ∧ u = [])) (v : List Char) :
    measure c u = measure c (u ++ v) ∨ u.length < (measure c (u ++ v)).2 := by
  have hlocal : ∀ {f : List Char → Nat} (kind : Kind), IsLocal f →
      (kind, f u) = (kind, f (u ++ v)) ∨ u.length < f (u ++ v) := fun kind h =>
    (h u v).imp_left (congrArg (kind, ·))
  by_cases hbackslash : c = '\\'
  · rw [hbackslash]
    exact measure_backslash_append (fun hu => hend ⟨hbackslash, hu⟩) v
  unfold measure
  rw [if_neg hbackslash, if_neg hbackslash]
  split
  · exact .inl rfl
  split
  · exact hlocal .blank (isLocal_takeWhile isSpace)
  split
  · exact hlocal .comment (isLocal_takeWhile (· != '\n'))
  split
  · rename_i hquote
    exact hlocal .literal (isLocal_literalLength [] hquote)
  split
  · exact hlocal .number (isLocal_takeWhile fun d => isWordChar d || d = '.')
  split
  · exact wordOrLiteral_append c u v
  · exact hlocal .mark (isLocal_longMark c)

theorem lexemes_cons (c : Char) (s : List Char) :
    lexemes (c :: s) =
      ⟨(measure c s).1, c :: s.take (measure c s).2⟩ :: lexemes (s.drop (measure c s).2) := by
  rw [lexemes]

/-- No lexeme is empty, so lexemes that are nothing put together are none. -/
theorem eq_nil_of_flatten_eq_nil {s : List Char} {ls : List Lexeme} (h : ls ⊆ lexemes s)
    (hflatten : (ls.map (·.text)).flatten = []) : ls = [] := by
  cases ls with
  | nil => rfl
  | cons l ls =>
    obtain ⟨c, after, rfl⟩ := exists_measure_of_mem_lexemes (h List.mem_cons_self)
    simp at hflatten

/-- **A source that is cut off between two lexemes has the lexemes before the cut,** save that a
backslash at the very end becomes a continuation. -/
theorem lexemes_append {s t : List Char} {before after : List Lexeme}
    (h : lexemes (s ++ t) = before ++ after) (hs : (before.map (·.text)).flatten = s) :
    lexemes s = before ∨
      ∃ front, before = front ++ [⟨.mark, ['\\']⟩] ∧
        lexemes s = front ++ [⟨.continuation, ['\\']⟩] := by
  by_cases ht : t = []
  · have hflatten := flatten_lexemes (s ++ t)
    have hafter : after = [] := by
      refine eq_nil_of_flatten_eq_nil (h ▸ List.subset_append_right before after) ?_
      rw [h, ht, List.map_append, List.flatten_append, hs] at hflatten
      exact List.append_cancel_left hflatten
    rw [ht, hafter, List.append_nil, List.append_nil] at h
    exact .inl h
  have hpos := List.length_pos_iff.2 ht
  induction before generalizing s with
  | nil =>
    left
    rw [← hs, List.map_nil, List.flatten_nil, lexemes]
  | cons l before ih =>
    obtain ⟨c, w, hl⟩ :=
      exists_measure_of_mem_lexemes (h ▸ List.mem_cons_self : l ∈ lexemes (s ++ t))
    obtain ⟨u, rfl⟩ : ∃ u, s = c :: u := ⟨_, by rw [← hs, hl]; rfl⟩
    rw [List.cons_append, lexemes_cons, List.cons_append] at h
    obtain ⟨rfl, hrest⟩ := List.cons.inj h
    have hu : (u ++ t).take (measure c (u ++ t)).2 ++ (before.map (·.text)).flatten = u := by
      simpa using hs
    have hlength := congrArg List.length hu
    rw [List.length_append, List.length_take, List.length_append] at hlength
    have hle : (measure c (u ++ t)).2 ≤ u.length := by omega
    rw [List.drop_append_of_le_length hle] at hrest
    rw [List.take_append_of_le_length hle] at hu ⊢
    have hbehind : (before.map (·.text)).flatten = u.drop (measure c (u ++ t)).2 :=
      List.append_cancel_left (hu.trans (List.take_append_drop _ u).symm)
    by_cases hend : c = '\\' ∧ u = []
    · obtain ⟨rfl, rfl⟩ := hend
      have hmark := measure_backslash_eq_mark ht (Nat.le_zero.1 hle)
      obtain rfl : before = [] := eq_nil_of_flatten_eq_nil
        (hrest ▸ List.subset_append_left before after) (hbehind.trans List.drop_nil)
      refine .inr ⟨[], by rw [List.nil_append, hmark]; rfl, ?_⟩
      rw [lexemes_cons, List.drop_nil, lexemes]
      rfl
    · have hmeasure := (measure_append hend t).resolve_right (by omega)
      rw [lexemes_cons, hmeasure]
      rcases ih hrest hbehind with hbefore | ⟨front, rfl, hfront⟩
      · exact .inl (by rw [hbefore])
      · exact .inr ⟨_ :: front, rfl, by rw [hfront]; rfl⟩

/-- A piece without its place. -/
def Piece.lexeme (p : Piece) : Lexeme :=
  ⟨p.kind, p.text⟩

theorem map_lexeme_placeFrom (p : Place) (ls : List Lexeme) :
    (placeFrom p ls).map Piece.lexeme = ls := by
  induction ls generalizing p with
  | nil => rfl
  | cons l ls ih => rw [placeFrom, List.map_cons, ih]; rfl

theorem placeFrom_append (p : Place) (ls : List Lexeme) :
    ∃ q, ∀ ms, placeFrom p (ls ++ ms) = placeFrom p ls ++ placeFrom q ms := by
  induction ls generalizing p with
  | nil => exact ⟨p, fun _ => rfl⟩
  | cons l ls ih =>
    obtain ⟨q, hq⟩ := ih (p.after l.text)
    exact ⟨q, fun ms => by rw [List.cons_append, placeFrom, hq]; rfl⟩

theorem map_text_lexeme (ps : List Piece) :
    ((ps.map Piece.lexeme).map (·.text)).flatten = written ps := by
  rw [List.map_map, written, List.flatMap_def]
  rfl

/-- **A source that is cut off between two pieces has the pieces before the cut in their places,** save
that a backslash at the very end becomes a continuation. -/
theorem pieces_append {s t : List Char} {before after : List Piece}
    (h : pieces (s ++ t) = before ++ after) (hs : written before = s) :
    pieces s = before ∨
      ∃ front p, before = front ++ [p] ∧ p.kind = .mark ∧ p.text = ['\\'] ∧
        pieces s = front ++ [{ p with kind := .continuation }] := by
  have hlexemes : lexemes (s ++ t) = before.map Piece.lexeme ++ after.map Piece.lexeme := by
    rw [← List.map_append, ← h, pieces, map_lexeme_placeFrom]
  have hbefore : placeFrom .start (before.map Piece.lexeme) = before := by
    obtain ⟨q, hq⟩ := placeFrom_append .start (before.map Piece.lexeme)
    rw [pieces, hlexemes, hq] at h
    refine (List.append_inj h ?_).1
    rw [← List.length_map (f := Piece.lexeme), map_lexeme_placeFrom, List.length_map]
  rcases lexemes_append hlexemes (by rw [map_text_lexeme, hs]) with hsame | ⟨front, hfront, hcut⟩
  · exact .inl (by rw [pieces, hsame, hbefore])
  · obtain ⟨q, hq⟩ := placeFrom_append .start front
    rw [hfront, hq] at hbefore
    exact .inr ⟨_, _, hbefore.symm, rfl, rfl, by rw [pieces, hcut, hq]; rfl⟩

end Source
end CompletionPrompt
