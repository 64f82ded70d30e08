import CompletionPrompt.Proofs.Source.Tree
import CompletionPrompt.Proofs.Span.Region
import Mathlib.Data.List.Infix

/-!
# Nodes in their source

A node stands in a source when it starts where a beginning of the source ends and stops where a longer
one ends, and its children stand in it one behind another (`Tree.StandsIn`). Its span is then the span
of a stretch of the source, and reads the text that the node is written with (`StandsIn.extract_span`).
Spans of nodes come before one another when the nodes do (`StandsIn.endsBefore_iff`).
-/

namespace CompletionPrompt
namespace Source

/-! ### Places -/

/-- The place where a text ends that a source starts with. -/
def Place.endOf (s : List Char) : Place :=
  ⟨s.length, Text.lineFeeds s, Text.lastColumn s⟩

theorem Place.next_endOf (s : List Char) (c : Char) :
    (Place.endOf s).next c = Place.endOf (s ++ [c]) := by
  by_cases h : c = '\n'
  · have hrow : Text.lastRow (s ++ ['\n']) = [] := by
      rw [Text.lastRow_append, if_pos List.mem_cons_self]
      rfl
    simp [Place.next, Place.endOf, h, Text.lineFeeds, Text.lastColumn, hrow]
  · have hmem : '\n' ∉ [c] := fun hm => h (List.mem_singleton.1 hm).symm
    simp [Place.next, Place.endOf, h, Text.lineFeeds, Text.lastColumn, Text.lastRow_append, hmem]

theorem Place.after_endOf (s m : List Char) :
    (Place.endOf s).after m = Place.endOf (s ++ m) := by
  induction m generalizing s with
  | nil => simp [Place.after]
  | cons c m ih =>
    have hstep : (Place.endOf s).after (c :: m) = ((Place.endOf s).next c).after m := rfl
    rw [hstep, Place.next_endOf, ih, List.append_assoc, List.singleton_append]

theorem Place.after_start (text : List Char) : Place.start.after text = Place.endOf text :=
  Place.after_endOf [] text

namespace Tree

/-- A node stands in a source between two texts, and its children stand in it one behind another. The
first of them may start later, behind a token without a node. -/
structure StandsIn (text : List Char) (n : Tree) : Prop extends IsNested n where
  between : ∃ before covered after, text = before ++ covered ++ after ∧
    n.start = Place.endOf before ∧ n.stop = Place.endOf (before ++ covered)

namespace StandsIn

variable {text : List Char} {m n : Tree}

/-- A node stops inside its source, and not before it starts. -/
theorem le (h : n.StandsIn text) :
    n.start.offset ≤ n.stop.offset ∧ n.stop.offset ≤ text.length := by
  obtain ⟨before, covered, after, rfl, hstart, hstop⟩ := h.between
  rw [hstart, hstop]
  simp [Place.endOf]

/-- **A node is written with a stretch of its source,** and its span is that of the stretch. -/
theorem exists_around (h : n.StandsIn text) :
    ∃ before covered after, text = before ++ covered ++ after ∧
      n.span = Span.around before covered ∧ n.textIn text = covered ∧
      n.start.offset = before.length ∧ n.stop.offset = (before ++ covered).length := by
  obtain ⟨before, covered, after, rfl, hstart, hstop⟩ := h.between
  refine ⟨before, covered, after, rfl, ?_, ?_, by rw [hstart]; rfl, by rw [hstop]; rfl⟩
  · rw [span, hstart, hstop]
    rfl
  · have htake : (before ++ covered ++ after).take (before ++ covered).length = before ++ covered :=
      List.take_left
    rw [textIn, hstart, hstop]
    exact (congrArg _ htake).trans List.drop_left

theorem fits_span (h : n.StandsIn text) : n.span.Fits text := by
  obtain ⟨before, covered, after, rfl, hspan, -⟩ := h.exists_around
  exact hspan ▸ Span.fits_around before covered after

/-- The span of a node reads what the node is written with. -/
theorem extract_span (h : n.StandsIn text) : n.span.extract text = n.textIn text := by
  obtain ⟨before, covered, after, rfl, hspan, htext, -⟩ := h.exists_around
  rw [hspan, htext, Span.extract_around]

theorem placeLe_iff (hm : m.StandsIn text) {before after : List Char}
    (htext : text = before ++ after) :
    Text.PlaceLe m.span.stop (Text.endOf before) ↔ m.stop.offset ≤ before.length := by
  obtain ⟨front, covered, back, rfl, hspan, -, -, hstop⟩ := hm.exists_around
  rw [hspan, Span.stop_around, Text.placeLe_endOf_iff htext, hstop]

/-- The span of a node ends before that of another when the node stops before the other starts. -/
theorem endsBefore_iff (hm : m.StandsIn text) (hn : n.StandsIn text) :
    m.span.EndsBefore n.span ↔ m.stop.offset ≤ n.start.offset := by
  obtain ⟨before, covered, after, htext, hspan, -, hstart, -⟩ := hn.exists_around
  rw [Span.EndsBefore, hspan, Span.start_around, hstart]
  exact hm.placeLe_iff (by rw [htext, List.append_assoc])

/-- A node that takes room has a span that does. -/
theorem not_placeLe_span (h : n.StandsIn text) (hroom : n.start.offset < n.stop.offset) :
    ¬ Text.PlaceLe n.span.stop n.span.start := fun hle =>
  absurd ((h.endsBefore_iff h).1 hle) (Nat.not_le.2 hroom)

end StandsIn

/-- What is written with something takes room. -/
theorem room_of_textIn_ne_nil {n : Tree} {text : List Char} (h : n.textIn text ≠ []) :
    n.start.offset < n.stop.offset := by
  refine Nat.lt_of_not_le fun hle => h (List.drop_eq_nil_of_le ?_)
  rw [List.length_take]
  omega

/-- A node starts with what is written where it starts and stops inside it. -/
theorem textIn_prefix {m n : Tree} (hstart : m.start = n.start)
    (hstop : m.stop.offset ≤ n.stop.offset) (text : List Char) :
    m.textIn text <+: n.textIn text := by
  rw [textIn, textIn, hstart]
  exact List.IsPrefix.drop (List.take_prefix_take_left hstop) n.start.offset

/-- A node ends with what is written where it stops and starts inside it. -/
theorem textIn_suffix {m n : Tree} (hstop : m.stop = n.stop)
    (hstart : n.start.offset ≤ m.start.offset) (text : List Char) :
    m.textIn text <:+ n.textIn text := by
  rw [textIn, textIn, hstop]
  exact List.drop_suffix_drop_left _ hstart

end Tree
end Source
end CompletionPrompt
