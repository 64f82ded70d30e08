import CompletionPrompt.Proofs.Source.Order

/-!
# Nodes put together

A statement or comment is put in front of what the nodes behind it were put together to in one of
three ways (`Node.Put`): it stays alone, it takes what is deeper as its body, or it decorates what
follows. Each way moves nodes below others, and leaves the tokens and the import statements as they
are and in their order (`Node.Put.filter_isPlain`). So the tokens and import statements of the tree are
those of the nodes that the source is laid out as (`filter_layoutTrees`).

A node that is put together starts and stops with its children (`Tree.IsTight`), and its tokens with
it (`Tree.IsTight.exists_tokens`). Hence children stand inside their parent and one behind another when
the tokens do (`Tree.IsTight.isNested`).
-/

namespace CompletionPrompt
namespace Source

open Source.Tree (nodesOfAll group suite)

/-! ### Statements and comments as nodes -/

/-- A statement or comment as a node, with nothing of what follows. -/
def Node.tree : Node → Tree
  | .statement s => .group s.treeKind none s.leaves
  | .comment _ p => p.token none

@[simp] theorem Statement.children_tree (s : Statement) :
    (Node.statement s).tree.children = s.leaves :=
  rfl

/-- What a statement is as a node does not depend on its depth. -/
theorem Statement.tree_congr {s t : Statement} (h : s.tokens = t.tokens) :
    (Node.statement s).tree = (Node.statement t).tree := by
  cases s
  cases t
  obtain rfl := h
  rfl

namespace Tree

/-- A token or an import statement: a node that nothing is put into. -/
def isPlain (t : Tree) : Bool :=
  t.isToken || t.isImport

theorem nodes_group (kind : String) (field : Option String) (ts : List Tree) :
    (group kind field ts).nodes = group kind field ts :: nodesOfAll ts :=
  rfl

theorem isPlain_group {ts : List Tree} (h : ts ≠ []) (kind : String) (field : Option String) :
    (group kind field ts).isPlain = importKinds.contains kind := by
  have hnot : ts.isEmpty = false := List.isEmpty_eq_false_iff.2 h
  simp [isPlain, isToken, isImport, group, children, label, hnot]

theorem filter_nodes_group {kind : String} {field : Option String} {ts : List Tree} (hne : ts ≠ [])
    (hkind : importKinds.contains kind = false) :
    (group kind field ts).nodes.filter isPlain = (nodesOfAll ts).filter isPlain := by
  rw [nodes_group, List.filter_cons_of_neg]
  rw [isPlain_group hne, hkind]
  exact Bool.false_ne_true

/-- A suite has the tokens and import statements of what stands in it. -/
theorem filter_suite (ts : List Tree) :
    (nodesOfAll (suite ts)).filter isPlain = (nodesOfAll ts).filter isPlain := by
  have hblock : ∀ block : List Tree,
      (nodesOfAll (if block.isEmpty then [] else [group "block" (some "body") block])).filter isPlain =
        (nodesOfAll block).filter isPlain := fun block => by
    cases block with
    | nil => rfl
    | cons t ts =>
      rw [List.isEmpty_cons, if_neg Bool.false_ne_true, nodesOfAll_cons, nodesOfAll_nil,
        List.append_nil, filter_nodes_group (List.cons_ne_nil t ts) rfl]
  rw [suite, nodesOfAll_append, List.filter_append, hblock, ← List.filter_append,
    ← nodesOfAll_append, List.takeWhile_append_dropWhile]

/-- What is decorated has the tokens and import statements of its parts. -/
theorem filter_decoratedParts? {t : Tree} {parts : List Tree} (h : t.decoratedParts? = some parts) :
    t.nodes.filter isPlain = (nodesOfAll parts).filter isPlain := by
  unfold decoratedParts? at h
  split at h
  · rename_i hdecorated
    obtain ⟨hkind, htoken⟩ := Bool.and_eq_true_iff.1 hdecorated
    have hplain : t.isPlain = false := by
      simp only [isDecorated, decide_eq_true_eq] at hkind
      have hnot : t.isToken = false := by simpa using htoken
      simp [isPlain, isImport, importKinds, hkind, hnot]
    obtain rfl := Option.some.inj h
    rw [nodes_eq, List.filter_cons_of_neg (by simp [hplain])]
  · split at h
    · obtain rfl := Option.some.inj h
      rw [nodesOfAll_cons, nodesOfAll_nil, List.append_nil]
    · cases h

/-- What holds of nodes that are put together holds of a suite when it holds of what stands in it. -/
theorem forall_mem_suite {P : Tree → Prop}
    (hgroup : ∀ kind field ts, ts ≠ [] → P (group kind field ts)) {ts : List Tree}
    (hts : ∀ m ∈ nodesOfAll ts, P m) : ∀ m ∈ nodesOfAll (suite ts), P m := by
  rw [← List.takeWhile_append_dropWhile (p := isComment) (l := ts)] at hts
  rw [suite]
  generalize ts.dropWhile isComment = block at hts ⊢
  rw [nodesOfAll_append] at hts ⊢
  obtain ⟨hcomments, hblock⟩ := List.forall_mem_append.1 hts
  refine List.forall_mem_append.2 ⟨hcomments, ?_⟩
  cases block with
  | nil => exact List.forall_mem_nil _
  | cons t ts =>
    rw [List.isEmpty_cons, if_neg Bool.false_ne_true, nodesOfAll_cons, nodesOfAll_nil,
      List.append_nil, nodes_group]
    exact List.forall_mem_cons.2 ⟨hgroup _ _ _ (List.cons_ne_nil t ts), hblock⟩

theorem nodesOfAll_subset_of_decoratedParts? {t : Tree} {parts : List Tree}
    (h : t.decoratedParts? = some parts) : nodesOfAll parts ⊆ t.nodes := by
  unfold decoratedParts? at h
  split at h
  · obtain rfl := Option.some.inj h
    rw [nodes_eq]
    exact List.subset_cons_self t _
  · split at h
    · obtain rfl := Option.some.inj h
      rw [nodesOfAll_cons, nodesOfAll_nil, List.append_nil]
      exact List.Subset.refl _
    · cases h

end Tree

namespace Statement

/-- A statement that imports has a kind of import statement, and no other has. -/
theorem contains_treeKind (s : Statement) : Tree.importKinds.contains s.treeKind = s.isImport := by
  have himport : s.isImport = (s.tokens.headD default).isOneOf ["import", "from"] := by
    unfold isImport
    cases s.tokens with
    | nil => rfl
    | cons t ts => rfl
  rw [himport, treeKind, Piece.isOneOf]
  generalize s.tokens.headD default = first
  generalize (s.tokens.drop 1).headD default = second
  simp only [List.any_cons, List.any_nil, Bool.or_false]
  cases hfirst : first.isWord "import" with
  | true => rfl
  | false =>
    cases hfrom : first.isWord "from" with
    | true => cases second.isWord "__future__" <;> rfl
    | false =>
      simp only [Bool.false_eq_true, if_false, Bool.or_false]
      split
      · rfl
      split
      · rfl
      split
      · rfl
      split <;> rfl

theorem leaves_ne_nil {s : Statement} (h : s.tokens ≠ []) : s.leaves ≠ [] := by
  simpa [leaves] using h

end Statement

/-! ### Tokens -/

namespace Piece

variable (p : Piece) (field : Option String)

@[simp] theorem start_token : (p.token field).start = p.start := rfl

@[simp] theorem stop_token : (p.token field).stop = p.stop := rfl

/-- No token is an import statement. -/
theorem isImport_token : (p.token field).isImport = false := by
  have hkind : p.treeKind.2 = true → Tree.importKinds.contains p.treeKind.1 = false := by
    unfold treeKind
    extract_lets text
    intro hnamed
    split at hnamed
    · split at hnamed
      · cases hnamed
      · rename_i hword
        rw [if_neg hword]
        rfl
    all_goals first | rfl | cases hnamed
  rw [Tree.isImport]
  cases hnamed : p.treeKind.2 with
  | false => exact Bool.and_eq_false_iff.2 (.inl hnamed)
  | true => exact Bool.and_eq_false_iff.2 (.inr (hkind hnamed))

end Piece

/-- The tokens of a statement or comment. -/
def Node.leaves : Node → List Tree
  | .statement s => s.leaves
  | .comment _ p => [p.token none]

/-- A token of a node is one of its pieces. -/
theorem Node.exists_of_mem_leaves {n : Node} {k : Tree} (h : k ∈ n.leaves) :
    ∃ p ∈ n.pieces, ∃ field, k = p.token field := by
  cases n with
  | statement s =>
    obtain ⟨i, hi, rfl⟩ := List.mem_mapIdx.1 h
    exact ⟨s.tokens[i], List.getElem_mem hi, _, rfl⟩
  | comment depth p => exact ⟨p, List.mem_cons_self, none, List.mem_singleton.1 h⟩

theorem Node.map_leaves {α : Type} (f : Place → Place → α) (n : Node) :
    (n.leaves.map fun t => f t.start t.stop) = n.pieces.map fun p => f p.start p.stop := by
  cases n with
  | statement s =>
    refine List.ext_getElem (by simp [leaves, Statement.leaves, pieces]) fun i _ _ => ?_
    simp [leaves, Statement.leaves, pieces]
  | comment depth p => rfl

theorem Node.isToken_of_mem_leaves {n : Node} {k : Tree} (h : k ∈ n.leaves) :
    k.isToken = true ∧ k.isImport = false := by
  obtain ⟨p, -, field, rfl⟩ := exists_of_mem_leaves h
  exact ⟨rfl, p.isImport_token field⟩

/-- Below a statement there are its tokens. -/
theorem Statement.nodes_tree (s : Statement) :
    (Node.statement s).tree.nodes = (Node.statement s).tree :: s.leaves := by
  have hleaves : nodesOfAll s.leaves = s.leaves := Tree.nodesOfAll_of_isToken fun k hk =>
    (Node.isToken_of_mem_leaves (n := .statement s) hk).1
  exact congrArg _ hleaves

theorem Node.forall_mem_nodes_tree {n : Node} (h : n.pieces ≠ []) {P : Tree → Prop}
    (hgroup : ∀ kind field ts, ts ≠ [] → P (group kind field ts)) (hleaves : ∀ k ∈ n.leaves, P k) :
    ∀ m ∈ n.tree.nodes, P m := by
  cases n with
  | statement s =>
    rw [s.nodes_tree]
    exact List.forall_mem_cons.2 ⟨hgroup _ _ _ (Statement.leaves_ne_nil h), hleaves⟩
  | comment depth p => exact hleaves

theorem Node.tokens_tree {n : Node} (h : n.pieces ≠ []) : n.tree.tokens = n.leaves := by
  cases n with
  | statement s =>
    have hnot : (Node.statement s).tree.isToken = false :=
      List.isEmpty_eq_false_iff.2 (Statement.leaves_ne_nil h)
    rw [Tree.tokens, s.nodes_tree, List.filter_cons_of_neg (by simp [hnot])]
    exact List.filter_eq_self.2 fun k hk => (isToken_of_mem_leaves (n := .statement s) hk).1
  | comment depth p => rfl

/-- A statement that imports is an import statement, and nothing below it or in another node is. -/
theorem Node.mem_nodes_tree_isImport {n : Node} {m : Tree} :
    m ∈ n.tree.nodes ∧ m.isImport = true ↔
      ∃ s : Statement, n = .statement s ∧ s.isImport = true ∧ m = (Node.statement s).tree := by
  have hnot : ∀ {n : Node}, m ∈ n.leaves → ¬ m.isImport = true := fun h => by
    simp [(isToken_of_mem_leaves h).2]
  cases n with
  | statement s =>
    have himport : (Node.statement s).tree.isImport = s.isImport := s.contains_treeKind
    rw [s.nodes_tree, List.mem_cons]
    constructor
    · rintro ⟨rfl | hm, hs⟩
      · exact ⟨s, rfl, himport.symm.trans hs, rfl⟩
      · exact absurd hs (hnot (n := .statement s) hm)
    · rintro ⟨s', hs', hs, rfl⟩
      obtain rfl := Node.statement.inj hs'
      exact ⟨.inl rfl, himport.trans hs⟩
  | comment depth p =>
    constructor
    · exact fun ⟨hm, hs⟩ => absurd hs (hnot (n := .comment depth p) hm)
    · rintro ⟨s, hs, -⟩
      cases hs

/-! ### One node in front of others -/

/-- What putting a statement or comment in front of nodes makes of them. -/
inductive Node.Put : Node → List Tree → List Tree → Prop where
  /-- It stays alone. -/
  | alone (n : Node) (rest : List Tree) : Put n rest (n.tree :: rest)
  /-- What is deeper becomes its body. -/
  | header (s : Statement) (deeper rest : List Tree) : s.isImport = false →
      Put (.statement s) (deeper ++ rest)
        (group s.treeKind none (s.leaves ++ suite deeper) :: rest)
  /-- It decorates what follows the comments behind it. -/
  | decorator (s : Statement) (comments : List Tree) {t : Tree} {parts : List Tree}
      (rest : List Tree) : s.isImport = false → t.decoratedParts? = some parts →
      Put (.statement s) (comments ++ t :: rest)
        (group "decorated_definition" none ((Node.statement s).tree :: comments ++ parts) :: rest)

/-- **A node is put in front of others in one of three ways.** -/
theorem Node.put_putBefore (n : Node) (rest : List (Nat × Tree)) :
    n.Put (rest.map (·.2)) ((n.putBefore rest).map (·.2)) := by
  cases n with
  | comment depth p => exact .alone (.comment depth p) _
  | statement s =>
    rw [putBefore]
    extract_lets behind comments deeper
    split
    · exact .alone (.statement s) _
    rename_i himport
    rw [Bool.not_eq_true] at himport
    split
    · split
      · rename_i parts hparts
        obtain ⟨x, hx, hparts⟩ := Option.bind_eq_some_iff.1 hparts
        obtain ⟨more, hmore⟩ := List.head?_eq_some_iff.1 hx
        have hrest : rest.map (·.2) = comments ++ x.2 :: more.map (·.2) := by
          rw [← List.map_cons, ← hmore, ← List.map_append, List.takeWhile_append_dropWhile]
        rw [hrest, hmore]
        exact .decorator s comments (more.map (·.2)) himport hparts
      · exact .alone (.statement s) _
    · have hrest : rest.map (·.2) = deeper ++ (rest.dropWhile fun x => s.depth < x.1).map (·.2) := by
        rw [← List.map_append, List.takeWhile_append_dropWhile]
      rw [hrest]
      exact .header s deeper _ himport

namespace Node.Put

variable {n : Node} {rest out : List Tree}

/-- **Tokens and import statements stay what they are,** behind those of the node in front. -/
theorem filter_isPlain (h : n.Put rest out) (hne : n.pieces ≠ []) :
    (nodesOfAll out).filter Tree.isPlain =
      n.tree.nodes.filter Tree.isPlain ++ (nodesOfAll rest).filter Tree.isPlain := by
  cases h with
  | alone => rw [Tree.nodesOfAll_cons, List.filter_append]
  | header s deeper rest himport =>
    have hkind : Tree.importKinds.contains s.treeKind = false := s.contains_treeKind.trans himport
    have hleaves : s.leaves ≠ [] := Statement.leaves_ne_nil hne
    rw [Tree.nodesOfAll_cons, List.filter_append, Tree.filter_nodes_group (by simp [hleaves]) hkind,
      Node.tree, Tree.filter_nodes_group hleaves hkind, Tree.nodesOfAll_append, Tree.nodesOfAll_append,
      List.filter_append, List.filter_append, Tree.filter_suite, List.append_assoc]
  | @decorator s comments t parts rest himport hparts =>
    rw [List.cons_append, Tree.nodesOfAll_cons, List.filter_append,
      Tree.filter_nodes_group (List.cons_ne_nil _ _) rfl, Tree.nodesOfAll_cons,
      Tree.nodesOfAll_append, Tree.nodesOfAll_append, Tree.nodesOfAll_cons]
    simp only [List.filter_append, List.append_assoc, Tree.filter_decoratedParts? hparts]

/-- What holds of nodes that are put together holds of all nodes when it held of them before. -/
theorem forall_mem (h : n.Put rest out) (hne : n.pieces ≠ []) {P : Tree → Prop}
    (hgroup : ∀ kind field ts, ts ≠ [] → P (group kind field ts)) (hn : ∀ m ∈ n.tree.nodes, P m)
    (hrest : ∀ m ∈ nodesOfAll rest, P m) : ∀ m ∈ nodesOfAll out, P m := by
  cases h with
  | alone => exact List.forall_mem_append.2 ⟨hn, hrest⟩
  | header s deeper rest himport =>
    have hleaves : s.leaves ≠ [] := Statement.leaves_ne_nil hne
    rw [Tree.nodesOfAll_append] at hrest
    obtain ⟨hdeeper, hrest⟩ := List.forall_mem_append.1 hrest
    refine List.forall_mem_append.2 ⟨?_, hrest⟩
    rw [Tree.nodes_group, Tree.nodesOfAll_append]
    exact List.forall_mem_cons.2 ⟨hgroup _ _ _ (by simp [hleaves]), List.forall_mem_append.2
      ⟨(List.forall_mem_cons.1 hn).2, Tree.forall_mem_suite hgroup hdeeper⟩⟩
  | decorator s comments rest himport hparts =>
    rw [Tree.nodesOfAll_append, Tree.nodesOfAll_cons] at hrest
    obtain ⟨hcomments, hrest⟩ := List.forall_mem_append.1 hrest
    obtain ⟨ht, hrest⟩ := List.forall_mem_append.1 hrest
    refine List.forall_mem_append.2 ⟨?_, hrest⟩
    rw [Tree.nodes_group, List.cons_append, Tree.nodesOfAll_cons, Tree.nodesOfAll_append]
    refine List.forall_mem_cons.2 ⟨hgroup _ _ _ (List.cons_ne_nil _ _), List.forall_mem_append.2
      ⟨hn, List.forall_mem_append.2 ⟨hcomments, fun m hm => ?_⟩⟩⟩
    exact ht m (Tree.nodesOfAll_subset_of_decoratedParts? hparts hm)

end Node.Put

/-! ### The tree of a source -/

section
variable (text : List Char)

/-- The tokens and import statements of a layout are those of its statements and comments. -/
theorem filter_layoutTrees {q : Tree → Bool} (hq : ∀ t, q t = true → t.isPlain = true) :
    (nodesOfAll (layoutTrees text)).filter q = (nodes text).flatMap fun n => n.tree.nodes.filter q := by
  have hplain : ∀ ts : List Tree, ts.filter q = (ts.filter Tree.isPlain).filter q := fun ts => by
    rw [List.filter_filter]
    refine List.filter_congr fun t _ => ?_
    cases hqt : q t with
    | false => rfl
    | true => exact (hq t hqt).symm
  have hne : ∀ n ∈ nodes text, n.pieces ≠ [] := fun n hn => Node.pieces_ne_nil hn
  unfold layoutTrees
  generalize nodes text = ns at hne ⊢
  induction ns with
  | nil => rfl
  | cons n ns ih =>
    obtain ⟨hn, hne⟩ := List.forall_mem_cons.1 hne
    rw [List.foldr_cons, hplain, (n.put_putBefore _).filter_isPlain hn, List.filter_append, ← hplain,
      ← hplain, ih hne, List.flatMap_cons]

theorem tokens_layoutTrees :
    (nodesOfAll (layoutTrees text)).filter Tree.isToken = (nodes text).flatMap Node.leaves := by
  rw [filter_layoutTrees text fun t ht => Bool.or_eq_true_iff.2 (.inl ht)]
  rw [List.flatMap_def, List.flatMap_def]
  exact congrArg _ (List.map_congr_left fun n hn => Node.tokens_tree (Node.pieces_ne_nil hn))

theorem mem_layoutTrees_isImport {m : Tree} :
    m ∈ nodesOfAll (layoutTrees text) ∧ m.isImport = true ↔
      ∃ s : Statement, .statement s ∈ nodes text ∧ s.isImport = true ∧
        m = (Node.statement s).tree := by
  rw [← List.mem_filter, filter_layoutTrees text fun t ht => Bool.or_eq_true_iff.2 (.inr ht)]
  simp only [List.mem_flatMap, List.mem_filter, Node.mem_nodes_tree_isImport]
  constructor
  · rintro ⟨n, hn, s, rfl, himport, rfl⟩
    exact ⟨s, hn, himport, rfl⟩
  · rintro ⟨s, hs, himport, rfl⟩
    exact ⟨.statement s, hs, s, rfl, himport, rfl⟩

/-- What holds of nodes that are put together holds of all nodes of a layout when it holds of its
tokens. -/
theorem forall_mem_layoutTrees {P : Tree → Prop}
    (hgroup : ∀ kind field ts, ts ≠ [] → P (group kind field ts))
    (hnodes : ∀ n ∈ nodes text, ∀ k ∈ n.leaves, P k) :
    ∀ m ∈ nodesOfAll (layoutTrees text), P m := by
  have hne : ∀ n ∈ nodes text, n.pieces ≠ [] := fun n hn => Node.pieces_ne_nil hn
  unfold layoutTrees
  generalize nodes text = ns at hnodes hne ⊢
  induction ns with
  | nil => exact List.forall_mem_nil _
  | cons n ns ih =>
    obtain ⟨hn, hne⟩ := List.forall_mem_cons.1 hne
    obtain ⟨hP, hnodes⟩ := List.forall_mem_cons.1 hnodes
    exact (n.put_putBefore _).forall_mem hn hgroup (n.forall_mem_nodes_tree hn hgroup hP)
      (ih hnodes hne)

end

end Source
end CompletionPrompt
