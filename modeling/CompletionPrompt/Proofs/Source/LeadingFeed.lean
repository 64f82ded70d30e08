import CompletionPrompt.Proofs.Source.Assembly
import CompletionPrompt.Proofs.Source.Down

/-!
# A line feed in front of a source

With a line feed in front, everything in a source stands one row further down, at the same column.
What a source is laid out as is read off the kinds and the texts of its pieces alone, so moving the
pieces down moves the nodes down: each step of the layout commutes with it (`Layout.take_down`), and so
does the whole run (`Layout.nodesFrom_down`). The line feed itself leaves the layout where it started.
What the nodes are put together to moves down with them, since it is read off the nodes in the same way
(`Node.putBefore_down`, `layoutTrees_cons_feed`).
-/

namespace CompletionPrompt
namespace Source

/-- A piece behind one more row. -/
def Piece.down (p : Piece) : Piece :=
  { p with start := p.start.down, stop := p.stop.down }

/-- A statement behind one more row. -/
def Statement.down (s : Statement) : Statement :=
  { s with tokens := s.tokens.map Piece.down }

/-- A node behind one more row. -/
def Node.down : Node → Node
  | .statement s => .statement s.down
  | .comment depth p => .comment depth p.down

/-! ### Pieces -/

@[simp] theorem Piece.down_kind (p : Piece) : p.down.kind = p.kind := rfl

@[simp] theorem Piece.down_text (p : Piece) : p.down.text = p.text := rfl

@[simp] theorem Piece.isWord_down (p : Piece) : p.down.isWord = p.isWord := rfl

theorem Place.next_down (p : Place) (c : Char) : p.down.next c = (p.next c).down := by
  unfold next
  split <;> rfl

theorem Place.after_down (p : Place) (s : List Char) : p.down.after s = (p.after s).down := by
  induction s generalizing p with
  | nil => rfl
  | cons c s ih =>
    have hstep : p.down.after (c :: s) = (p.down.next c).after s := rfl
    rw [hstep, next_down, ih]
    rfl

theorem placeFrom_down (p : Place) (ls : List Lexeme) :
    placeFrom p.down ls = (placeFrom p ls).map Piece.down := by
  induction ls generalizing p with
  | nil => rfl
  | cons l ls ih =>
    rw [placeFrom, placeFrom, List.map_cons, Place.after_down, ih]
    rfl

/-- The line feed is a piece of its own, and the others stand behind it. -/
theorem pieces_cons_feed (s : List Char) :
    pieces ('\n' :: s) = ⟨.rowEnd, ['\n'], .start, Place.start.down⟩ :: (pieces s).map Piece.down := by
  have hlexemes : lexemes ('\n' :: s) = ⟨.rowEnd, ['\n']⟩ :: lexemes s := by
    rw [lexemes]
    rfl
  rw [pieces, hlexemes, pieces, ← placeFrom_down]
  rfl

/-! ### The layout -/

namespace Layout

/-- A layout behind one more row. -/
def down (l : Layout) : Layout :=
  { l with tokens := l.tokens.map Piece.down }

/-- Nodes that are handed on and the layout behind them, behind one more row. -/
def movedDown (r : List Node × Layout) : List Node × Layout :=
  (r.1.map Node.down, r.2.down)

theorem nextIndent_down (n : Nat) (ps : List Piece) :
    nextIndent n (ps.map Piece.down) = nextIndent n ps := by
  induction ps generalizing n with
  | nil => rfl
  | cons p ps ih =>
    rw [List.map_cons, nextIndent, nextIndent]
    simp only [Piece.down_kind, Piece.down_text, ih]

theorem endsRow_down (ps : List Piece) : endsRow (ps.map Piece.down) = endsRow ps := by
  induction ps with
  | nil => rfl
  | cons p ps ih =>
    rw [List.map_cons, endsRow, endsRow]
    simp only [Piece.down_kind, ih]

variable (l : Layout)

@[simp] theorem down_row : l.down.row = l.row := rfl

@[simp] theorem down_expected : l.down.expected = l.expected := rfl

@[simp] theorem down_tokens : l.down.tokens = l.tokens.map Piece.down := rfl

theorem startsHeader_down (ps : List Piece) :
    startsHeader (ps.map Piece.down) = startsHeader ps := by
  cases ps with
  | nil => rfl
  | cons first others =>
    cases others <;> rfl

theorem suite?_down (rest : List Piece) :
    l.down.suite? (rest.map Piece.down) = l.suite? rest := by
  unfold suite?
  rw [down_tokens, ← List.map_reverse]
  cases l.tokens.reverse with
  | nil => rfl
  | cons first others =>
    have hheader := startsHeader_down (first :: others)
    rw [List.map_cons] at hheader
    simp only [List.map_cons, hheader, Piece.isWord_down, endsRow_down, List.isEmpty_map]
    rfl

theorem canEnd_down : l.down.canEnd = l.canEnd := by
  unfold canEnd
  rw [down_tokens, List.getLast?_map, List.any_map, Option.map_map, ← List.map_reverse,
    startsHeader_down]
  cases l.tokens <;> rfl

theorem close_down : l.down.close = movedDown l.close := by
  unfold close
  rw [down_tokens, List.isEmpty_map, apply_ite movedDown, ← List.map_reverse]
  rfl

theorem enterRow_down : l.down.enterRow = l.enterRow.down := by
  unfold enterRow
  rw [down_row, down_expected]
  cases l.row with
  | fresh =>
    cases l.expected with
    | none => rfl
    | some cases =>
      dsimp only
      rw [apply_ite down]
      rfl
  | between => rfl
  | afterHeader cases => rfl

theorem takeRowEnd_down : l.down.takeRowEnd = movedDown l.takeRowEnd := by
  unfold takeRowEnd
  rw [canEnd_down, close_down, apply_ite movedDown]
  rfl

variable (p : Piece) (rest : List Piece)

theorem takeComment_down :
    l.down.takeComment p.down (rest.map Piece.down) = movedDown (l.takeComment p rest) := by
  unfold takeComment
  rw [canEnd_down, close_down, nextIndent_down, down_row, down_tokens, List.isEmpty_map]
  rw [apply_ite movedDown, apply_ite movedDown]
  refine ite_congr rfl (fun _ => rfl) fun _ => ite_congr rfl (fun _ => ?_) fun _ => ?_
  · have hnodes : (l.close.1 ++ [Node.comment l.close.2.depth p]).map Node.down =
        l.close.1.map Node.down ++ [.comment l.close.2.depth p.down] := List.map_append
    exact Prod.ext hnodes.symm rfl
  cases l.row with
  | fresh =>
    dsimp only
    rw [apply_ite movedDown]
    rfl
  | between => rfl
  | afterHeader cases => rfl

theorem takeCode_down :
    l.down.takeCode p.down (rest.map Piece.down) = movedDown (l.takeCode p rest) := by
  have hentered : (if l.down.tokens.isEmpty then l.down.enterRow else l.down) =
      (if l.tokens.isEmpty then l.enterRow else l).down := by
    rw [enterRow_down, apply_ite down, down_tokens, List.isEmpty_map]
  unfold takeCode
  rw [hentered]
  generalize (if l.tokens.isEmpty then l.enterRow else l) = l
  have hsuite : { l.down with brackets := bracketsAfter l.down.brackets p.down }.suite?
      (rest.map Piece.down) = { l with brackets := bracketsAfter l.brackets p }.suite? rest :=
    suite?_down _ rest
  have hclose : { l.down with
        tokens := p.down :: l.down.tokens
        brackets := bracketsAfter l.down.brackets p.down }.close =
      movedDown
        { l with tokens := p :: l.tokens, brackets := bracketsAfter l.brackets p }.close :=
    close_down { l with tokens := p :: l.tokens, brackets := bracketsAfter l.brackets p }
  simp only [apply_ite movedDown, List.drop_succ_cons, List.drop_zero]
  refine ite_congr rfl (fun _ => close_down l) fun _ => ?_
  refine ite_congr rfl (fun _ => rfl) fun _ => ite_congr rfl (fun _ => rfl) fun _ => ?_
  refine ite_congr rfl (fun _ => ite_congr rfl (fun _ => rfl) fun _ => ?_) fun _ => rfl
  rw [hsuite, hclose]
  cases { l with brackets := bracketsAfter l.brackets p }.suite? rest <;> rfl

/-- **A step of the layout commutes with moving down.** -/
theorem take_down :
    l.down.take p.down (rest.map Piece.down) = movedDown (l.take p rest) := by
  unfold take
  rw [takeRowEnd_down, takeComment_down, takeCode_down, Piece.down_kind, down_row]
  cases p.kind with
  | blank => cases l.row <;> rfl
  | _ => rfl

theorem nodesFrom_down (ps : List Piece) :
    l.down.nodesFrom (ps.map Piece.down) = (l.nodesFrom ps).map Node.down := by
  induction ps generalizing l with
  | nil => exact congrArg Prod.fst (close_down l)
  | cons p ps ih =>
    rw [List.map_cons, nodesFrom, take_down]
    exact (congrArg _ (ih _)).trans List.map_append.symm

end Layout

/-- **With a line feed in front, the nodes of a source stand one row further down.** -/
theorem nodes_cons_feed (s : List Char) : nodes ('\n' :: s) = (nodes s).map Node.down := by
  rw [nodes, pieces_cons_feed]
  exact Layout.nodesFrom_down .initial (pieces s)

/-! ### The tree -/

theorem Piece.token_down (p : Piece) (field : Option String) :
    p.down.token field = (p.token field).down :=
  rfl

namespace Statement

variable (s : Statement)

@[simp] theorem tokens_down : s.down.tokens = s.tokens.map Piece.down := rfl

theorem isImport_down : s.down.isImport = s.isImport := by
  rw [isImport, isImport, tokens_down, List.head?_map, Option.map_map]
  rfl

theorem isLiteral_down : s.down.isLiteral = s.isLiteral := by
  unfold isLiteral
  rw [tokens_down]
  rcases s.tokens with _ | ⟨t, _ | ⟨u, ts⟩⟩ <;> rfl

theorem nameIndex?_down : s.down.nameIndex? = s.nameIndex? := by
  unfold nameIndex?
  rw [tokens_down]
  rcases s.tokens with _ | ⟨d, _ | ⟨n, _ | ⟨t, ts⟩⟩⟩ <;> rfl

theorem treeKind_down : s.down.treeKind = s.treeKind := by
  unfold treeKind
  rw [nameIndex?_down, isLiteral_down, tokens_down]
  rcases s.tokens with _ | ⟨t, _ | ⟨u, ts⟩⟩ <;> rfl

theorem leaves_down : s.down.leaves = s.leaves.map Tree.down := by
  rw [leaves, nameIndex?_down, tokens_down, leaves]
  refine List.ext_getElem (by simp) fun i _ _ => ?_
  simp [Piece.token_down]

end Statement

namespace Tree

theorem group_down {ts : List Tree} (h : ts ≠ []) (kind : String) (field : Option String) :
    group kind field (ts.map down) = (group kind field ts).down := by
  have hfirst := List.head?_eq_some_head h
  have hlast := List.getLast?_eq_some_getLast h
  rw [group, group, down, downAll_eq_map, List.head?_map, List.getLast?_map, hfirst, hlast]
  simp [Label.down]

@[simp] theorem isComment_down (t : Tree) : t.down.isComment = t.isComment := by
  rw [isComment, label_down]
  rfl

theorem suite_down (ts : List Tree) : suite (ts.map down) = (suite ts).map down := by
  have hcomment : isComment ∘ down = isComment := funext isComment_down
  rw [suite, suite, List.takeWhile_map, List.dropWhile_map, hcomment, List.map_append,
    List.isEmpty_map]
  cases ts.dropWhile isComment with
  | nil => rfl
  | cons t ts =>
    rw [group_down (List.cons_ne_nil t ts)]
    rfl

theorem decoratedParts?_down (t : Tree) :
    t.down.decoratedParts? = t.decoratedParts?.map (List.map down) := by
  rw [decoratedParts?, decoratedParts?, isDecorated_down, isToken_down, isFunction_down,
    children_down, label_down, apply_ite (Option.map (List.map down)),
    apply_ite (Option.map (List.map down))]
  rfl

end Tree

/-- **Putting nodes together commutes with moving down.** -/
theorem Node.putBefore_down {n : Node} (h : n.pieces ≠ []) (rest : List (Nat × Tree)) :
    n.down.putBefore (rest.map (Prod.map id Tree.down)) =
      (n.putBefore rest).map (Prod.map id Tree.down) := by
  cases n with
  | comment depth p => rfl
  | statement s =>
    have hleaves : s.leaves ≠ [] := Statement.leaves_ne_nil h
    have hdepth : s.down.depth = s.depth := rfl
    have hcomment : (fun x : Nat × Tree => x.2.isComment) ∘ Prod.map id Tree.down =
        fun x => x.2.isComment := funext fun x => Tree.isComment_down x.2
    have hdeeper : (fun x : Nat × Tree => decide (s.depth < x.1)) ∘ Prod.map id Tree.down =
        fun x => decide (s.depth < x.1) := rfl
    have hsnd : ∀ xs : List (Nat × Tree), (xs.map (Prod.map id Tree.down)).map (·.2) =
        (xs.map (·.2)).map Tree.down := fun xs => by
      rw [List.map_map, List.map_map]
      rfl
    rw [down, putBefore, putBefore, s.isImport_down, s.treeKind_down, s.leaves_down, hdepth,
      List.dropWhile_map, List.takeWhile_map, List.dropWhile_map, List.takeWhile_map, hcomment,
      hdeeper, hsnd, hsnd]
    dsimp only
    generalize rest.dropWhile (fun x => x.2.isComment) = behind
    generalize (rest.takeWhile fun x => x.2.isComment).map (·.2) = comments
    generalize rest.dropWhile (fun x => s.depth < x.1) = below
    generalize (rest.takeWhile fun x => s.depth < x.1).map (·.2) = deeper
    by_cases himport : s.isImport = true
    · rw [if_pos himport, if_pos himport, Tree.group_down hleaves]
      rfl
    rw [if_neg himport, if_neg himport]
    by_cases hkind : s.treeKind = "decorator"
    · rw [if_pos hkind, if_pos hkind]
      have hparts : ((behind.map (Prod.map id Tree.down)).head?.bind fun x => x.2.decoratedParts?) =
          (behind.head?.bind fun x => x.2.decoratedParts?).map (List.map Tree.down) := by
        cases behind with
        | nil => rfl
        | cons x xs => exact x.2.decoratedParts?_down
      rw [hparts, Tree.group_down hleaves]
      cases behind.head?.bind fun x => x.2.decoratedParts? with
      | none => rfl
      | some parts =>
        have hall : (Tree.group s.treeKind none s.leaves).down :: comments.map Tree.down ++
            parts.map Tree.down =
              (Tree.group s.treeKind none s.leaves :: comments ++ parts).map Tree.down := by
          rw [List.map_append, List.map_cons]
        dsimp only [Option.map_some]
        rw [hall, Tree.group_down (by simp), ← List.map_drop]
        rfl
    · rw [if_neg hkind, if_neg hkind, Tree.suite_down, ← List.map_append,
        Tree.group_down (by simp [hleaves])]
      rfl

/-- With a line feed in front, the nodes of a layout stand one row further down. -/
theorem layoutTrees_cons_feed (s : List Char) :
    layoutTrees ('\n' :: s) = (layoutTrees s).map Tree.down := by
  have hne : ∀ n ∈ nodes s, n.pieces ≠ [] := fun n hn => Node.pieces_ne_nil hn
  have hput : ((nodes s).map Node.down).foldr Node.putBefore [] =
      ((nodes s).foldr Node.putBefore []).map (Prod.map id Tree.down) := by
    generalize nodes s = ns at hne ⊢
    induction ns with
    | nil => rfl
    | cons n ns ih =>
      obtain ⟨hn, hne⟩ := List.forall_mem_cons.1 hne
      rw [List.map_cons, List.foldr_cons, ih hne, Node.putBefore_down hn, List.foldr_cons]
  rw [layoutTrees, nodes_cons_feed, hput, layoutTrees, List.map_map, List.map_map]
  rfl

theorem moduleOf_cons_feed (s : List Char) (ts : List Tree) :
    moduleOf ('\n' :: s) (ts.map Tree.down) = (moduleOf s ts).down := by
  have hstop : Place.start.after ('\n' :: s) = (Place.start.after s).down :=
    Place.after_down .start s
  rw [moduleOf, moduleOf, hstop, Tree.down, Tree.downAll_eq_map]
  cases ts with
  | nil => rfl
  | cons t ts =>
    rw [List.map_cons, List.head?_cons, Option.map_some, Option.getD_some, Tree.start_down]
    rfl

end Source
end CompletionPrompt
