import CompletionPrompt.Proofs.Json.Reading
import Mathlib.Data.List.Forall2

/-!
# Values on many lines

The text of a value with each item and field on a line of its own is cut into the tokens of the
value (`tokens?_pretty`), like its text without white space. White space may stand in front of a
text and behind it (`Cuts.blank_append`, `Cuts.append_blank`). So a value is read back from either
text, exactly when it nests no deeper than the reader allows (`read?_of_mem_texts`).
-/

namespace CompletionPrompt
namespace Json

namespace Tokenizing

theorem start_of_isSpace {c : Char} (h : isSpace c) (out : List Token) :
    start out c = ⟨out, .between⟩ := by
  simp [start, h]

/-- White space between tokens is passed over. -/
theorem foldlM_blank (out : List Token) {blank : List Char} (h : ∀ c ∈ blank, isSpace c) :
    blank.foldlM step ⟨out, .between⟩ = some ⟨out, .between⟩ := by
  induction blank with
  | nil => rfl
  | cons c blank ih =>
    obtain ⟨hc, hblank⟩ := List.forall_mem_cons.1 h
    simp [step, start_of_isSpace hc, ih hblank]

end Tokenizing

namespace Cuts

variable {s blank : List Char} {ts : List Token}

/-- White space may stand in front of a text. -/
theorem blank_append (hblank : ∀ c ∈ blank, isSpace c) (h : Cuts s ts) : Cuts (blank ++ s) ts := by
  intro out
  obtain ⟨z, hrun, hz⟩ := h out
  refine ⟨z, ?_, hz⟩
  rw [List.foldlM_append, Tokenizing.foldlM_blank out hblank]
  exact hrun

/-- White space may stand behind a text, and ends a word or number. -/
theorem append_blank (h : Cuts s ts) (hblank : ∀ c ∈ blank, isSpace c) : Cuts (s ++ blank) ts := by
  intro out
  obtain ⟨z, hrun, hz⟩ := h out
  cases blank with
  | nil => exact ⟨z, by simpa using hrun, hz⟩
  | cons c blank =>
    obtain ⟨hc, hblank⟩ := List.forall_mem_cons.1 hblank
    have hbare : Tokenizing.isBare c = false := by simp [Tokenizing.isBare, hc]
    refine ⟨⟨ts.reverse ++ out, .between⟩, ?_, .between _⟩
    simp [List.foldlM_append, hrun, hz.step hbare, Tokenizing.start_of_isSpace hc,
      Tokenizing.foldlM_blank _ hblank]

/-- Texts on lines of their own, with commas between them. -/
theorem onLines (level : Nat) {items : List (List Char)} {tss : List (List Token)}
    (h : List.Forall₂ Cuts items tss) :
    Cuts (onLines level items) ([Token.comma].intercalate tss) := by
  have hline : ∀ level, ∀ c ∈ newLine level, isSpace c := by
    intro level c hc
    rcases List.mem_cons.1 hc with rfl | hc
    · decide
    · rw [List.eq_of_mem_replicate hc]
      decide
  cases h with
  | nil => exact nil
  | @cons item ts items tss hitem hitems =>
    have hlines : List.Forall₂ Cuts ((item :: items).map (newLine (level + 1) ++ ·)) (ts :: tss) :=
      List.forall₂_map_left_iff.2
        ((List.Forall₂.cons hitem hitems).imp fun _ _ => blank_append (hline (level + 1)))
    exact (separated .compact hlines).append_blank (hline level)

end Cuts

mutual

theorem cuts_prettyAt (level : Nat) : ∀ v : Value, v.Readable → Cuts (v.prettyAt level) v.tokens
  | .null, h => cuts_written .compact .null h
  | .bool b, h => cuts_written .compact (.bool b) h
  | .natural n, h => cuts_written .compact (.natural n) h
  | .decimal text, h => cuts_written .compact (.decimal text) h
  | .string s, h => cuts_written .compact (.string s) h
  | .array items, h => (Cuts.onLines level (cuts_prettyItems (level + 1) items h)).enclosed rfl rfl
  | .object fields, h =>
    (Cuts.onLines level (cuts_prettyFields (level + 1) fields h)).enclosed rfl rfl

theorem cuts_prettyItems (level : Nat) : ∀ vs : List Value, ReadableItems vs →
    List.Forall₂ Cuts (prettyItems level vs) (itemTokens vs)
  | [], _ => .nil
  | v :: vs, h => .cons (cuts_prettyAt level v h.1) (cuts_prettyItems level vs h.2)

theorem cuts_prettyFields (level : Nat) :
    ∀ fields : List (String × Value), ReadableFields fields →
      List.Forall₂ Cuts (prettyFields level fields) (fieldTokens fields)
  | [], _ => .nil
  | (name, v) :: fields, h => by
    refine .cons ?_ (cuts_prettyFields level fields h.2)
    have hcolon : punctuation? ':' = some .colon := rfl
    have hname : Cuts (literal name.toList) [.string name] := by
      rw [← String.ofList_toList (s := name), String.toList_ofList]
      exact Cuts.literal .compact name.toList
    have hblank : ∀ c ∈ [' '], isSpace c := by
      intro c hc
      rw [List.mem_singleton.1 hc]
      decide
    have hvalue : Cuts ([' '] ++ v.prettyAt level) v.tokens :=
      .blank_append hblank (cuts_prettyAt level v h.1)
    simpa using hname.append hcolon hvalue

end

/-- **A value on many lines is cut into its own tokens.** -/
theorem tokens?_pretty {v : Value} (h : v.Readable) : tokens? v.pretty = some v.tokens :=
  (cuts_prettyAt 0 v h).tokens?

/-- **A value is read back from each of its texts**, exactly when it nests no deeper than the reader
allows. -/
theorem read?_of_mem_texts {v : Value} (h : v.Readable) {text : List Char}
    (htext : text ∈ [v.compact, v.pretty]) :
    read? text = if v.nesting ≤ Reading.maxNesting then some v else none := by
  simp only [List.mem_cons, List.not_mem_nil, or_false] at htext
  rcases htext with rfl | rfl
  · rw [← written_compact]
    exact readNested?_of_tokens? (tokens?_written .compact h)
  · exact readNested?_of_tokens? (tokens?_pretty h)

end Json
end CompletionPrompt
