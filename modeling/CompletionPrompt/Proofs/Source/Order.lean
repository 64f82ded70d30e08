import CompletionPrompt.Proofs.Source.Layout

/-!
# Nodes in their order

A node is written with pieces of the source: a statement with its tokens, a comment with itself
(`Node.pieces`). The layout hands on each piece at most once and in order, so what the nodes of a
source are written with is left of its pieces when some are dropped (`pieces_nodes_sublist`). Pieces
stand one behind another (`pairwise_pieces`), and a node takes the room from where its first piece
starts to where its last one stops (`Node.start_lt_stop`).
-/

namespace CompletionPrompt
namespace Source

/-- The pieces that a node is written with. -/
def Node.pieces : Node → List Piece
  | .statement s => s.tokens
  | .comment _ p => [p]

/-- Where a statement or comment starts. -/
def Node.start : Node → Place
  | .statement s => (s.tokens.headD default).start
  | .comment _ p => p.start

/-- Where the last piece of a node stops. -/
def Node.stop (n : Node) : Place :=
  (n.pieces.getLastD default).stop

theorem Node.start_eq (n : Node) : n.start = (n.pieces.headD default).start := by
  cases n <;> rfl

/-! ### What the layout hands on -/

namespace Layout

theorem pieces_close (l : Layout) :
    l.close.1.flatMap Node.pieces ++ l.close.2.tokens.reverse = l.tokens.reverse := by
  by_cases h : l.tokens = []
  · simp [close_of_isEmpty h, h]
  · simp [close_of_ne_nil h, Node.pieces]

variable (l : Layout) (p : Piece)

theorem sublist_takeRowEnd :
    (l.takeRowEnd.1.flatMap Node.pieces ++ l.takeRowEnd.2.tokens.reverse).Sublist
      (l.tokens.reverse ++ [p]) := by
  unfold takeRowEnd
  split
  · exact List.sublist_append_left _ _
  · exact (pieces_close l).symm ▸ List.sublist_append_left _ _

theorem sublist_takeComment (rest : List Piece) :
    ((l.takeComment p rest).1.flatMap Node.pieces ++
      (l.takeComment p rest).2.tokens.reverse).Sublist (l.tokens.reverse ++ [p]) := by
  unfold takeComment
  split
  · exact List.sublist_append_left _ _
  split
  · rename_i hempty
    have hne : l.tokens ≠ [] := by simpa using hempty
    simp [close_of_ne_nil hne, Node.pieces]
  · rename_i hempty
    have hnil : l.tokens = [] := by simpa using hempty
    split
    · dsimp only
      split <;> simp [hnil, Node.pieces]
    · simp [hnil, Node.pieces]

theorem sublist_takeCode (rest : List Piece) :
    ((l.takeCode p rest).1.flatMap Node.pieces ++
      (l.takeCode p rest).2.tokens.reverse).Sublist (l.tokens.reverse ++ [p]) := by
  unfold takeCode
  extract_lets l₀ l₁
  have htokens : l₀.tokens = l.tokens := by
    simp only [l₀]
    split
    · exact tokens_enterRow l
    · rfl
  have hpush : l.tokens.reverse ++ [p] = l₁.tokens.reverse := by
    simp [l₁, htokens]
  split
  · rw [pieces_close, htokens]
    exact List.sublist_append_left _ _
  rw [hpush]
  split
  · exact List.Sublist.refl _
  split
  · exact List.Sublist.refl _
  split
  · split
    · exact List.Sublist.refl _
    · split
      · exact List.Sublist.refl _
      · exact (pieces_close l₁).symm ▸ List.Sublist.refl _
  · exact List.Sublist.refl _

/-- **A piece is handed on once at most,** behind those before it. -/
theorem sublist_take (rest : List Piece) :
    ((l.take p rest).1.flatMap Node.pieces ++ (l.take p rest).2.tokens.reverse).Sublist
      (l.tokens.reverse ++ [p]) := by
  unfold take
  split
  · split <;> exact List.sublist_append_left _ _
  · exact sublist_takeRowEnd l p
  · exact List.sublist_append_left _ _
  · exact sublist_takeComment l p rest
  · exact sublist_takeCode l p rest

theorem sublist_nodesFrom (ps : List Piece) :
    ((l.nodesFrom ps).flatMap Node.pieces).Sublist (l.tokens.reverse ++ ps) := by
  induction ps generalizing l with
  | nil =>
    rw [nodesFrom, List.append_nil, ← pieces_close l]
    exact List.sublist_append_left _ _
  | cons p ps ih =>
    rw [nodesFrom, List.flatMap_append]
    refine (List.Sublist.append (List.Sublist.refl _) (ih _)).trans ?_
    rw [← List.append_assoc, ← List.singleton_append, ← List.append_assoc]
    exact (sublist_take l p ps).append (List.Sublist.refl ps)

end Layout

/-- **Nodes are written with pieces of the source, in order.** -/
theorem pieces_nodes_sublist (text : List Char) :
    ((nodes text).flatMap Node.pieces).Sublist (pieces text) :=
  Layout.sublist_nodesFrom .initial (pieces text)

theorem LaidOut.tokens_ne_nil {ps : List Piece} {ss : List Statement} (h : LaidOut ps ss) :
    ∀ s ∈ ss, s.tokens ≠ [] := by
  induction h with
  | done => simp
  | statement before hcovers hsep hrest ih => exact List.forall_mem_cons.2 ⟨hcovers.nonempty, ih⟩

theorem mem_statements_iff {text : List Char} {s : Statement} :
    s ∈ statements text ↔ .statement s ∈ nodes text := by
  constructor
  · intro h
    obtain ⟨n, hn, hs⟩ := List.mem_filterMap.1 h
    cases n with
    | statement t => exact Option.some.inj hs ▸ hn
    | comment depth p => cases hs
  · exact fun h => List.mem_filterMap.2 ⟨_, h, rfl⟩

/-- Every node is written with something. -/
theorem Node.pieces_ne_nil {text : List Char} {n : Node} (h : n ∈ nodes text) : n.pieces ≠ [] := by
  cases n with
  | statement s =>
    exact (laidOut_statements text).tokens_ne_nil s (mem_statements_iff.2 h)
  | comment depth p => exact List.cons_ne_nil p []

/-! ### Places -/

theorem length_le_start_of_placeFrom {s : List Char} {ls : List Lexeme} {q : Piece}
    (h : q ∈ placeFrom (Place.endOf s) ls) : s.length ≤ q.start.offset := by
  obtain ⟨before, after, hq⟩ := List.append_of_mem h
  rw [(start_of_placeFrom hq).1]
  simp [Place.endOf]

/-- **Pieces stand one behind another.** -/
theorem pairwise_pieces (text : List Char) :
    (pieces text).Pairwise fun p q => p.stop.offset ≤ q.start.offset := by
  have hfrom : ∀ (s : List Char) (ls : List Lexeme), (placeFrom (Place.endOf s) ls).Pairwise
      fun p q => p.stop.offset ≤ q.start.offset := by
    intro s ls
    induction ls generalizing s with
    | nil => exact .nil
    | cons l ls ih =>
      rw [placeFrom, Place.after_endOf]
      exact .cons (fun q hq => length_le_start_of_placeFrom hq) (ih _)
  exact hfrom [] (lexemes text)

/-- A piece of a source stands between two texts, and is not empty. -/
theorem exists_of_mem_pieces {text : List Char} {p : Piece} (h : p ∈ pieces text) :
    ∃ before after, text = before ++ p.text ++ after ∧ p.text ≠ [] ∧
      p.start = Place.endOf before ∧ p.stop = Place.endOf (before ++ p.text) := by
  obtain ⟨before, after, hp⟩ := List.append_of_mem h
  obtain ⟨c, rest, hl⟩ := exists_measure_of_mem_lexemes (mem_lexemes_of_mem_placeFrom h)
  refine ⟨written before, written after, ?_, ?_, start_of_pieces hp⟩
  · rw [← written_pieces text, hp]
    simp
  · rw [(Lexeme.mk.inj hl).2]
    exact List.cons_ne_nil _ _

/-! ### Nodes -/

theorem Node.exists_stop {n : Node} (h : n.pieces ≠ []) : ∃ p ∈ n.pieces, p.stop = n.stop := by
  refine ⟨n.pieces.getLast h, List.getLast_mem h, ?_⟩
  rw [Node.stop, List.getLastD_eq_getLast?, List.getLast?_eq_some_getLast h, Option.getD_some]

theorem mem_pieces_of_mem_nodes {text : List Char} {n : Node} {p : Piece} (hn : n ∈ nodes text)
    (hp : p ∈ n.pieces) : p ∈ pieces text :=
  (pieces_nodes_sublist text).subset (List.mem_flatMap.2 ⟨n, hn, hp⟩)

theorem start_lt_stop_of_mem_pieces {text : List Char} {p : Piece} (h : p ∈ pieces text) :
    p.start.offset < p.stop.offset ∧ p.stop.offset ≤ text.length := by
  obtain ⟨before, after, rfl, hne, hstart, hstop⟩ := exists_of_mem_pieces h
  have hpos := List.length_pos_iff.2 hne
  rw [hstart, hstop]
  simp only [Place.endOf, List.length_append]
  omega

theorem pairwise_flatMap_nodes (text : List Char) :
    (∀ n ∈ nodes text, n.pieces.Pairwise fun p q => p.stop.offset ≤ q.start.offset) ∧
      (nodes text).Pairwise fun m n =>
        ∀ p ∈ m.pieces, ∀ q ∈ n.pieces, p.stop.offset ≤ q.start.offset :=
  List.pairwise_flatMap.1 ((pairwise_pieces text).sublist (pieces_nodes_sublist text))

/-- A node takes room, and all of it is inside its source. -/
theorem Node.start_lt_stop {text : List Char} {n : Node} (h : n ∈ nodes text) :
    n.start.offset < n.stop.offset ∧ n.stop.offset ≤ text.length := by
  have hne := Node.pieces_ne_nil h
  obtain ⟨p, ps, hp⟩ := List.exists_cons_of_ne_nil hne
  obtain ⟨q, hq, hstop⟩ := Node.exists_stop hne
  have hstart : n.start = p.start := by rw [Node.start_eq, hp, List.headD_cons]
  have hpmem : p ∈ n.pieces := hp ▸ List.mem_cons_self
  have hproom := start_lt_stop_of_mem_pieces (mem_pieces_of_mem_nodes h hpmem)
  have hqroom := start_lt_stop_of_mem_pieces (mem_pieces_of_mem_nodes h hq)
  have hle : p = q ∨ p.stop.offset ≤ q.start.offset := by
    have hpair := (pairwise_flatMap_nodes text).1 n h
    rw [hp] at hpair hq
    exact (List.mem_cons.1 hq).imp Eq.symm ((List.pairwise_cons.1 hpair).1 q)
  rw [hstart, ← hstop]
  rcases hle with rfl | hle
  · exact hproom
  · omega

end Source
end CompletionPrompt
