import CompletionPrompt.Proofs.Source.Assembly
import CompletionPrompt.Proofs.Source.Beginning
import CompletionPrompt.Proofs.Source.LeadingFeed

/-!
# The layout parser keeps the laws

The tokens of a layout are pieces of the source, one behind another, and a node that is put together
starts and stops with tokens; so nodes stand inside one another, between pieces of the source
(`isNested_layoutTrees`, `standsIn_layoutTrees`), and the module stands in the source with them
(`standsIn_parse`).

The import statements of the tree are those that the source is laid out as, with their tokens right
below them (`mem_nodes_parse_isImport`). So what is known of the layout says what stands behind each of
them, and what is settled when a source is cut off between two pieces (`exists_pieces_of_hasEdge`). That
a tree without errors keeps the rules of the grammar is checked (`parse_of_errorFree`).
-/

namespace CompletionPrompt
namespace Source

open Source.Tree (nodesOfAll)

/-! ### Places -/

theorem Tree.isTight_of_isToken {k : Tree} (h : k.isToken = true) : k.IsTight := by
  have hchildren : k.children = [] := List.isEmpty_iff.1 h
  exact ⟨by simp [hchildren], by simp [hchildren]⟩

theorem Tree.isTight_group (kind : String) (field : Option String) (ts : List Tree) :
    (group kind field ts).IsTight where
  first c hc := by
    have hc : ts.head? = some c := hc
    simp [start, label, group, hc]
  last c hc := by
    have hc : ts.getLast? = some c := hc
    simp [stop, label, group, hc]

theorem Statement.isTight_tree (s : Statement) : (Node.statement s).tree.IsTight :=
  Tree.isTight_group _ _ _

section
variable {text : List Char}

theorem mem_tokens_layoutTrees {k : Tree} :
    k ∈ nodesOfAll (layoutTrees text) ∧ k.isToken = true ↔ ∃ n ∈ nodes text, k ∈ n.leaves := by
  rw [← List.mem_filter, tokens_layoutTrees, List.mem_flatMap]

/-- A token of a layout is a piece of the source. -/
theorem exists_mem_pieces {k : Tree} (h : k ∈ nodesOfAll (layoutTrees text))
    (htoken : k.isToken = true) : ∃ p ∈ pieces text, ∃ field, k = p.token field := by
  obtain ⟨n, hn, hk⟩ := mem_tokens_layoutTrees.1 ⟨h, htoken⟩
  obtain ⟨p, hp, field, rfl⟩ := Node.exists_of_mem_leaves hk
  exact ⟨p, mem_pieces_of_mem_nodes hn hp, field, rfl⟩

/-- The tokens of a layout stand one behind another. -/
theorem pairwise_tokens (text : List Char) :
    ((nodesOfAll (layoutTrees text)).filter Tree.isToken).Pairwise
      fun a b => a.stop.offset ≤ b.start.offset := by
  have hplaces : ((nodes text).flatMap Node.leaves).map (fun t => (t.start, t.stop)) =
      ((nodes text).flatMap Node.pieces).map fun p => (p.start, p.stop) := by
    rw [List.map_flatMap, List.map_flatMap]
    simp only [Node.map_leaves Prod.mk]
  have hordered : (((nodes text).flatMap Node.leaves).map fun t => (t.start, t.stop)).Pairwise
      fun a b => a.2.offset ≤ b.1.offset := by
    rw [hplaces, List.pairwise_map]
    exact (pairwise_pieces text).sublist (pieces_nodes_sublist text)
  rw [tokens_layoutTrees]
  exact List.pairwise_map.1 hordered

/-- The nodes of a layout stand inside one another, and those of the module one behind another. -/
theorem isNested_layoutTrees (text : List Char) :
    (∀ n ∈ nodesOfAll (layoutTrees text), n.IsTight ∧ n.IsNested) ∧
      (layoutTrees text).Pairwise fun a b => a.stop.offset ≤ b.start.offset := by
  have htight : ∀ n ∈ nodesOfAll (layoutTrees text), n.IsTight :=
    forall_mem_layoutTrees text (fun kind field ts _ => Tree.isTight_group kind field ts)
      fun n _ k hk => Tree.isTight_of_isToken (Node.isToken_of_mem_leaves hk).1
  cases hempty : layoutTrees text with
  | nil => exact ⟨List.forall_mem_nil _, .nil⟩
  | cons t ts =>
    rw [← hempty]
    -- the nodes are nested as those of a tree that starts and stops with them
    have htokens : (Tree.group "" none (layoutTrees text)).tokens =
        (nodesOfAll (layoutTrees text)).filter Tree.isToken := by
      rw [Tree.tokens, Tree.nodes_group, hempty]
      rfl
    have hnested := Tree.IsTight.isNested (t := .group "" none (layoutTrees text))
      (List.forall_mem_cons.2 ⟨Tree.isTight_group "" none (layoutTrees text), htight⟩)
      (fun k hk => by
        rw [htokens] at hk
        obtain ⟨hk, htoken⟩ := List.mem_filter.1 hk
        obtain ⟨p, hp, field, rfl⟩ := exists_mem_pieces hk htoken
        exact Nat.le_of_lt (start_lt_stop_of_mem_pieces hp).1)
      (htokens ▸ pairwise_tokens text)
    obtain ⟨htop, hbelow⟩ := List.forall_mem_cons.1 hnested
    exact ⟨fun n hn => ⟨htight n hn, hbelow n hn⟩, htop.ordered⟩

/-- Two beginnings of a text, of which the second ends no earlier. -/
theorem exists_covered {text before after front back : List Char} (h : text = before ++ after)
    (h' : text = front ++ back) (hle : before.length ≤ front.length) :
    ∃ covered, text = before ++ covered ++ back ∧ front = before ++ covered := by
  have hprefix : before <+: front :=
    List.prefix_of_prefix_length_le ⟨after, h.symm⟩ ⟨back, h'.symm⟩ hle
  obtain ⟨covered, rfl⟩ := hprefix
  exact ⟨covered, h', rfl⟩

/-- A node of a layout starts with a piece of the source and stops with one. -/
theorem exists_pieces_of_layoutTrees {n : Tree} (h : n ∈ nodesOfAll (layoutTrees text)) :
    (∃ p ∈ pieces text, p.start = n.start ∧ p.stop.offset ≤ n.stop.offset) ∧
      ∃ q ∈ pieces text, q.stop = n.stop := by
  obtain ⟨hnested, -⟩ := isNested_layoutTrees text
  obtain ⟨t, ht, hn⟩ := Tree.mem_nodesOfAll_iff.1 h
  have hbelow : ∀ m ∈ n.nodes, m ∈ nodesOfAll (layoutTrees text) := fun m hm =>
    Tree.mem_nodesOfAll_iff.2 ⟨t, ht, Tree.nodes_subset hn hm⟩
  have hpiece : ∀ k ∈ n.tokens, ∃ p ∈ pieces text, p.start = k.start ∧ p.stop = k.stop := by
    intro k hk
    obtain ⟨hk, htoken⟩ := Tree.mem_tokens_iff.1 hk
    obtain ⟨p, hp, field, rfl⟩ := exists_mem_pieces (hbelow k hk) htoken
    exact ⟨p, hp, rfl, rfl⟩
  obtain ⟨⟨k, hk, hstart⟩, m, hm, hstop⟩ :=
    Tree.IsTight.exists_tokens fun m hm => (hnested m (hbelow m hm)).1
  have hk := List.mem_of_mem_head? hk
  obtain ⟨p, hp, hpstart, hpstop⟩ := hpiece k hk
  obtain ⟨q, hq, -, hqstop⟩ := hpiece m (List.mem_of_getLast? hm)
  have hinside := Tree.IsNested.le_of_mem_nodes (fun m hm => (hnested m (hbelow m hm)).2)
    (Tree.mem_tokens_iff.1 hk).1
  exact ⟨⟨p, hp, hpstart.trans hstart, hpstop ▸ hinside.2⟩, q, hq, hqstop.trans hstop⟩

/-- **Nodes of a layout stand in their source,** and take room. -/
theorem standsIn_layoutTrees {n : Tree} (h : n ∈ nodesOfAll (layoutTrees text)) :
    n.StandsIn text ∧ n.start.offset < n.stop.offset := by
  obtain ⟨⟨p, hp, hstart, hle⟩, q, hq, hstop⟩ := exists_pieces_of_layoutTrees h
  have hroom : n.start.offset < n.stop.offset := by
    have hpiece := (start_lt_stop_of_mem_pieces hp).1
    rw [hstart] at hpiece
    omega
  obtain ⟨-, hnested⟩ := (isNested_layoutTrees text).1 n h
  refine ⟨⟨hnested, ?_⟩, hroom⟩
  obtain ⟨before, after, htext, -, hbefore, -⟩ := exists_of_mem_pieces hp
  obtain ⟨front, back, htext', -, -, hfront⟩ := exists_of_mem_pieces hq
  rw [List.append_assoc] at htext
  rw [hstart] at hbefore
  rw [hstop] at hfront
  obtain ⟨covered, hcovered, hfrontText⟩ := exists_covered htext htext' (by
    rw [hbefore, hfront] at hroom
    exact Nat.le_of_lt hroom)
  exact ⟨before, covered, back, hcovered, hbefore, by rw [hfront, hfrontText]⟩

/-! ### The module -/

theorem start_moduleOf (text : List Char) (ts : List Tree) :
    (moduleOf text ts).start = (ts.head?.map Tree.start).getD (Place.endOf text) ∧
      (moduleOf text ts).stop = Place.endOf text := by
  rw [← Place.after_start]
  exact ⟨rfl, rfl⟩

theorem start_errorAtEnd (text : List Char) :
    (errorAtEnd text).start = Place.endOf text ∧ (errorAtEnd text).stop = Place.endOf text :=
  ⟨Place.after_start text, Place.after_start text⟩

/-- A module stands in its source when the nodes right below it do. -/
theorem standsIn_moduleOf {ts : List Tree} (hts : ∀ t ∈ ts, t.StandsIn text)
    (hordered : ts.Pairwise fun a b => a.stop.offset ≤ b.start.offset) :
    (moduleOf text ts).StandsIn text := by
  obtain ⟨hstart, hstop⟩ := start_moduleOf text ts
  refine ⟨⟨fun c hc => ?_, hordered⟩, ?_⟩
  · -- the first node starts before the others
    rw [hstop]
    refine ⟨?_, (hts c hc).le.2⟩
    cases ts with
    | nil => exact absurd hc List.not_mem_nil
    | cons t ts =>
      rw [hstart]
      exact Tree.start_le_of_head? hordered rfl (hts t List.mem_cons_self).le.1 hc
  · rw [hstart, hstop]
    cases ts with
    | nil => exact ⟨text, [], [], by simp, rfl, by simp⟩
    | cons t ts =>
      obtain ⟨before, covered, after, htext, hbefore, -⟩ := (hts t List.mem_cons_self).between
      exact ⟨before, covered ++ after, [], by simp [htext], hbefore, by simp [htext]⟩

theorem standsIn_errorAtEnd (text : List Char) : (errorAtEnd text).StandsIn text where
  inside := fun _ h => absurd h List.not_mem_nil
  ordered := .nil
  between := ⟨text, [], [], by simp, (start_errorAtEnd text).1, by simp [(start_errorAtEnd text).2]⟩

/-- A source is read as a module, with an error at its end when it breaks a rule. -/
theorem exists_parse_eq (text : List Char) :
    ∃ rest, parse text = moduleOf text (layoutTrees text ++ rest) ∧
      (rest = [] ∧ (parse text).Grammatical text ∨ rest = [errorAtEnd text]) := by
  by_cases h : (moduleOf text (layoutTrees text)).Grammatical text
  · have hparse : parse text = moduleOf text (layoutTrees text) := if_pos h
    exact ⟨[], by rw [hparse, List.append_nil], .inl ⟨rfl, hparse ▸ h⟩⟩
  · exact ⟨[errorAtEnd text], if_neg h, .inr rfl⟩

/-- The nodes of a source are the module, those of its layout, and an error at the end. -/
theorem mem_nodes_parse {n : Tree} (h : n ∈ (parse text).nodes) :
    n = parse text ∨ n ∈ nodesOfAll (layoutTrees text) ∨ n = errorAtEnd text := by
  obtain ⟨rest, hparse, hrest⟩ := exists_parse_eq text
  rw [Tree.nodes_eq, List.mem_cons] at h
  refine h.imp_right fun h => ?_
  have hchildren : (parse text).children = layoutTrees text ++ rest := congrArg Tree.children hparse
  rw [hchildren, Tree.nodesOfAll_append, List.mem_append] at h
  refine h.imp_right fun h => ?_
  rcases hrest with ⟨rfl, -⟩ | rfl
  · exact absurd h List.not_mem_nil
  · exact List.mem_singleton.1 h

theorem mem_nodes_parse_of_layoutTrees {n : Tree} (h : n ∈ nodesOfAll (layoutTrees text)) :
    n ∈ (parse text).nodes := by
  obtain ⟨rest, hparse, -⟩ := exists_parse_eq text
  rw [hparse, Tree.nodes_eq]
  exact List.mem_cons_of_mem _ (Tree.nodesOfAll_append _ _ ▸ List.mem_append_left _ h)

/-- **The import statements of the tree are those of the layout.** -/
theorem mem_nodes_parse_isImport {n : Tree} :
    n ∈ (parse text).nodes ∧ n.isImport = true ↔
      ∃ s : Statement, .statement s ∈ nodes text ∧ s.isImport = true ∧
        n = (Node.statement s).tree := by
  rw [← mem_layoutTrees_isImport]
  refine ⟨fun ⟨hn, himport⟩ => ⟨?_, himport⟩, fun ⟨hn, himport⟩ =>
    ⟨mem_nodes_parse_of_layoutTrees hn, himport⟩⟩
  rcases mem_nodes_parse hn with rfl | hn | rfl
  · obtain ⟨rest, hparse, -⟩ := exists_parse_eq text
    rw [hparse] at himport
    exact absurd himport Bool.false_ne_true
  · exact hn
  · exact absurd himport Bool.false_ne_true

/-- **A source without errors is read as its layout,** and keeps the rules of the grammar. -/
theorem parse_of_errorFree (h : (parse text).ErrorFree) :
    parse text = moduleOf text (layoutTrees text) ∧ (parse text).Grammatical text := by
  obtain ⟨rest, hparse, ⟨rfl, hgrammatical⟩ | rfl⟩ := exists_parse_eq text
  · exact ⟨by rw [hparse, List.append_nil], hgrammatical⟩
  · have hmem : errorAtEnd text ∈ (parse text).nodes := by
      rw [hparse]
      exact Tree.mem_nodes_of_mem_children (by simp [moduleOf, Tree.children])
    exact absurd (h _ hmem) Bool.true_eq_false.mp

theorem standsIn_parse {n : Tree} (h : n ∈ (parse text).nodes) : n.StandsIn text := by
  rcases mem_nodes_parse h with rfl | hn | rfl
  · obtain ⟨rest, hparse, hrest⟩ := exists_parse_eq text
    have hlayout : ∀ t ∈ layoutTrees text, t.StandsIn text := fun t ht =>
      (standsIn_layoutTrees (Tree.mem_nodesOfAll_iff.2 ⟨t, ht, Tree.mem_nodes_self t⟩)).1
    have hordered := (isNested_layoutTrees text).2
    rw [hparse]
    rcases hrest with ⟨rfl, -⟩ | rfl
    · rw [List.append_nil]
      exact standsIn_moduleOf hlayout hordered
    · refine standsIn_moduleOf (List.forall_mem_append.2 ⟨hlayout, ?_⟩)
        (List.pairwise_append.2 ⟨hordered, List.pairwise_singleton _ _, fun t ht e he => ?_⟩)
      · exact List.forall_mem_singleton.2 (standsIn_errorAtEnd text)
      · rw [List.mem_singleton.1 he, (start_errorAtEnd text).1]
        exact (hlayout t ht).le.2
  · exact (standsIn_layoutTrees hn).1
  · exact standsIn_errorAtEnd text

end

/-! ### The laws -/

/-- The tree of an import statement has its tokens as children. -/
theorem isImport_eq_false_of_mem_below {s : Statement} {m : Tree}
    (h : m ∈ nodesOfAll (Node.statement s).tree.children) : m.isImport = false := by
  have hleaves : nodesOfAll (Node.statement s).tree.children = s.leaves :=
    (List.cons.inj s.nodes_tree).2
  rw [hleaves] at h
  exact (Node.isToken_of_mem_leaves (n := .statement s) h).2

/-- A definition starts with the first node below it: it is a node of the layout. -/
theorem start_eq_of_isFunction_or_isDecorated {n : Tree} (hn : n ∈ (parse text).nodes)
    (h : n.isFunction = true ∨ n.isDecorated = true) : ∀ c ∈ n.children.head?, c.start = n.start := by
  rcases mem_nodes_parse hn with rfl | hn | rfl
  · obtain ⟨rest, hparse, -⟩ := exists_parse_eq text
    have hkind : (parse text).label.kind = "module" := congrArg (·.label.kind) hparse
    simp [Tree.isFunction, Tree.isDecorated, hkind] at h
  · exact ((isNested_layoutTrees text).1 n hn).1.first
  · exact fun c hc => by cases hc

instance : LawfulParser where
  standsIn := standsIn_parse
  definition_first := start_eq_of_isFunction_or_isDecorated
  import_room hn himport :=
    (standsIn_layoutTrees ((mem_layoutTrees_isImport _).2 (mem_nodes_parse_isImport.1 ⟨hn, himport⟩)).1).2
  import_apart hn himport := by
    obtain ⟨s, -, -, rfl⟩ := mem_nodes_parse_isImport.1 ⟨hn, himport⟩
    exact fun m hm => isImport_eq_false_of_mem_below hm

instance : GrammaticalParser where
  grammatical h := (parse_of_errorFree h).2

/-- A token is written with the text of its piece. -/
theorem Piece.textIn_token {text : List Char} {p : Piece} (h : p ∈ pieces text)
    (field : Option String) : (p.token field).textIn text = p.text := by
  obtain ⟨before, after, rfl, -, hstart, hstop⟩ := exists_of_mem_pieces h
  have htake : (before ++ p.text ++ after).take (before ++ p.text).length = before ++ p.text :=
    List.take_left
  rw [Tree.textIn, Piece.start_token, Piece.stop_token, hstart, hstop]
  exact (congrArg _ htake).trans List.drop_left

/-- No token of an import statement is the name of a function. -/
theorem Statement.leaves_of_isImport {s : Statement} (h : s.isImport = true) :
    s.leaves = s.tokens.map fun p => p.token none := by
  have hname : s.nameIndex? = none := by
    unfold nameIndex?
    split
    · rename_i d n others htokens
      have hd : d.isOneOf ["import", "from"] = true := by simpa [isImport, htokens] using h
      have hnot : ∀ w ∉ ["import", "from"], d.isWord w = false := fun w hw => by
        rw [Bool.eq_false_iff]
        intro hdw
        rw [Layout.not_isOneOf_import hdw hw] at hd
        cases hd
      rw [hnot "def" (by decide), hnot "async" (by decide)]
      rfl
    · rfl
  simp [leaves, hname, List.mapIdx_eq_iff]

/-- **An import statement starts with a keyword and ends before something else than a word
character,** also in a source with errors. -/
theorem edges_of_isImport {text : List Char} {n : Tree} (hn : n ∈ (parse text).nodes)
    (hstatement : n.isImport = true) :
    (∃ k ∈ n.children.head?, k.start = n.start ∧ k.textIn text ∈ Tree.keywordTexts) ∧
      ∀ c ∈ (text.drop n.stop.offset).head?, isWordChar c = false := by
  obtain ⟨s, hs, himport, rfl⟩ := mem_nodes_parse_isImport.1 ⟨hn, hstatement⟩
  have hchildren : (Node.statement s).tree.children = s.tokens.map fun p => p.token none := by
    rw [s.children_tree, s.leaves_of_isImport himport]
  constructor
  · obtain ⟨first, others, htokens⟩ :=
      List.exists_cons_of_ne_nil (s.tokens_ne_nil_of_isImport himport)
    have hmem : first ∈ s.tokens := htokens ▸ List.mem_cons_self
    have hhead : (Node.statement s).tree.children.head? = some (first.token none) := by
      rw [hchildren, htokens]
      rfl
    refine ⟨first.token none, hhead, s.isTight_tree.first _ hhead, ?_⟩
    rw [Piece.textIn_token (mem_pieces_of_mem_nodes hs hmem)]
    have hword : first.isOneOf ["import", "from"] = true := by
      simpa [Statement.isImport, htokens] using himport
    obtain ⟨w, hw, hfirst⟩ := List.any_eq_true.1 hword
    have htext : first.text = w.toList := by simpa using (Bool.and_eq_true_iff.1 hfirst).2
    rw [htext]
    exact List.mem_map_of_mem (f := String.toList) hw
  · obtain ⟨last, hlast, hbehind⟩ := not_isWordChar_behind (mem_statements_iff.2 hs) himport
    have hleaf : (Node.statement s).tree.children.getLast? = some (last.token none) := by
      rw [hchildren, List.getLast?_map, hlast]
      rfl
    rw [← s.isTight_tree.last _ hleaf]
    exact hbehind

/-! ### Reading on -/

section
variable {u v : List Char}

/-- A place between pieces of a source. -/
def IsBetween (text : List Char) (p : Place) : Prop :=
  ∃ ps qs, pieces text = ps ++ qs ∧ p = Place.endOf (written ps)

theorem isBetween_end (text : List Char) : IsBetween text (Place.endOf text) :=
  ⟨pieces text, [], by simp, by rw [written_pieces]⟩

/-- Nodes start and stop between pieces of their source. -/
theorem isBetween_of_mem_parse {text : List Char} {n : Tree} (h : n ∈ (parse text).nodes) :
    IsBetween text n.start ∧ IsBetween text n.stop := by
  have hlayout : ∀ m ∈ nodesOfAll (layoutTrees text),
      IsBetween text m.start ∧ IsBetween text m.stop := by
    intro m hm
    obtain ⟨⟨p, hp, hstart, -⟩, q, hq, hstop⟩ := exists_pieces_of_layoutTrees hm
    rw [← hstart, ← hstop]
    constructor
    · obtain ⟨before, after, hpieces⟩ := List.append_of_mem hp
      exact ⟨before, p :: after, hpieces, (start_of_pieces hpieces).1⟩
    · obtain ⟨before, after, hpieces⟩ := List.append_of_mem hq
      exact ⟨before ++ [q], after, by simp [hpieces], by simp [(start_of_pieces hpieces).2]⟩
  obtain ⟨herrorStart, herrorStop⟩ := start_errorAtEnd text
  rcases mem_nodes_parse h with rfl | hn | rfl
  · obtain ⟨rest, hparse, hrest⟩ := exists_parse_eq text
    obtain ⟨hstart, hstop⟩ := start_moduleOf text (layoutTrees text ++ rest)
    rw [hparse, hstart, hstop]
    refine ⟨?_, isBetween_end text⟩
    cases hlist : layoutTrees text with
    | cons t ts => exact (hlayout t (hlist ▸ List.mem_append_left _ (Tree.mem_nodes_self t))).1
    | nil =>
      rcases hrest with ⟨rfl, -⟩ | rfl
      · exact isBetween_end text
      · exact herrorStart ▸ isBetween_end text
  · exact hlayout n hn
  · rw [herrorStart, herrorStop]
    exact ⟨isBetween_end text, isBetween_end text⟩

/-- Where a node starts or stops the source is cut between pieces. -/
theorem exists_pieces_of_hasEdge (h : (parse (u ++ v)).HasEdge u.length) :
    ∃ ps qs, pieces (u ++ v) = ps ++ qs ∧ written ps = u := by
  obtain ⟨n, hn, hedge⟩ := h
  obtain ⟨p, ⟨ps, qs, hpieces, hp⟩, hoffset⟩ :
      ∃ p, IsBetween (u ++ v) p ∧ p.offset = u.length := by
    obtain ⟨hstart, hstop⟩ := isBetween_of_mem_parse hn
    rcases hedge with hedge | hedge
    · exact ⟨n.start, hstart, hedge⟩
    · exact ⟨n.stop, hstop, hedge⟩
  have hwritten : written ps ++ written qs = u ++ v := by
    rw [← written_append, ← hpieces, written_pieces]
  exact ⟨ps, qs, hpieces, List.append_inj_left hwritten (by rwa [hp] at hoffset)⟩

/-- A token of a source without errors is a piece of it, unless it takes no room. -/
theorem exists_piece_of_token {text : List Char} {k : Tree} (hk : k ∈ (parse text).tokens)
    (h : (parse text).ErrorFree) (hroom : k.start.offset < k.stop.offset) :
    ∃ n ∈ nodes text, ∃ p ∈ n.pieces, p.isStray = false ∧ p.start = k.start ∧ p.stop = k.stop := by
  obtain ⟨hk, htoken⟩ := Tree.mem_tokens_iff.1 hk
  have herror := h k hk
  rcases mem_nodes_parse hk with rfl | hlayout | rfl
  · -- a module that has no children
    obtain ⟨rest, hparse, -⟩ := exists_parse_eq text
    have hempty : layoutTrees text ++ rest = [] := by
      rw [hparse] at htoken
      exact List.isEmpty_iff.1 htoken
    obtain ⟨hstart, hstop⟩ := start_moduleOf text (layoutTrees text ++ rest)
    rw [hparse, hstart, hstop, hempty] at hroom
    exact absurd hroom (Nat.lt_irrefl _)
  · obtain ⟨n, hn, hleaf⟩ := mem_tokens_layoutTrees.1 ⟨hlayout, htoken⟩
    obtain ⟨p, hp, field, rfl⟩ := Node.exists_of_mem_leaves hleaf
    exact ⟨n, hn, p, hp, herror, rfl, rfl⟩
  · exact absurd herror Bool.true_eq_false.mp

/-- What a source is laid out to import, its tree imports. -/
theorem tree_mem_parse {text : List Char} {s : Statement}
    (h : s.tokens ∈ importTokens (nodes text)) : (Node.statement s).tree ∈ (parse text).nodes := by
  obtain ⟨t, ht, himport, htokens⟩ := mem_importTokens_iff.1 h
  rw [← Statement.tree_congr htokens]
  exact (mem_nodes_parse_isImport.2 ⟨t, ht, himport, rfl⟩).1

/-- An import statement stops with the last piece that it is written with. -/
theorem Statement.stop_tree {s : Statement} (himport : s.isImport = true) :
    (s.tokens.getLastD default).stop = (Node.statement s).tree.stop := by
  have hne := s.tokens_ne_nil_of_isImport himport
  have hlast := List.getLast?_eq_some_getLast hne
  rw [List.getLastD_eq_getLast?, hlast, Option.getD_some]
  refine s.isTight_tree.last ((s.tokens.getLast hne).token none) ?_
  rw [s.children_tree, s.leaves_of_isImport himport, List.getLast?_map, hlast]
  rfl

end

/-- **The layout is read from its start to its end.** -/
instance : ForwardParser where
  import_settled {u v} hwhole hu hedge {n k} hn hstatement hk hbehind hroom hread := by
    obtain ⟨ps, qs, hpieces, hwritten⟩ := exists_pieces_of_hasEdge hedge
    obtain ⟨front, behind, rest, hfront, hcut, -, hcommon⟩ := exists_common_pieces hpieces hwritten
    obtain ⟨s, hs, himport, rfl⟩ := mem_nodes_parse_isImport.1 ⟨hn, hstatement⟩
    obtain ⟨m, hm, p, hp, hstray, hstart, hstop⟩ := exists_piece_of_token hk hwhole hroom
    have hpfront : p ∈ front := by
      have hcases := hcommon p (mem_pieces_of_mem_nodes hm hp) (hstop ▸ hread)
      exact hcases.resolve_right (by simp [hstray])
    refine tree_mem_parse ?_
    rw [nodes, hcut]
    refine mem_importTokens_beginning hfront rest (mem_importTokens_iff.2 ⟨s, hs, himport, rfl⟩) hm
      hp hpfront ?_
    rw [Statement.stop_tree himport, hstart]
    exact hbehind
  word_settled {u v} hwhole hu hedge {n k} hn hword hk hbehind hroom := by
    obtain ⟨ps, qs, hpieces, hwritten⟩ := exists_pieces_of_hasEdge hedge
    obtain ⟨front, behind, rest, hfront, hcut, hclose, -⟩ := exists_common_pieces hpieces hwritten
    -- the word stands in an import statement, which the whole source has too
    obtain ⟨i, hi, hstatement, m, hm, hlabel⟩ := (parse_of_errorFree hu).2.word_import n hn hword
    obtain ⟨s, hs, himport, rfl⟩ := mem_nodes_parse_isImport.1 ⟨hi, hstatement⟩
    obtain rfl := Tree.eq_of_isToken (Tree.mem_tokens_iff.1 hm).2 (Tree.mem_tokens_iff.1 hn).2 hlabel
    rw [Node.tokens_tree (n := .statement s) (s.tokens_ne_nil_of_isImport himport), Node.leaves,
      s.leaves_of_isImport himport] at hm
    obtain ⟨p, hp, rfl⟩ := List.mem_map.1 hm
    have hread : s.tokens ∈ importTokens (Layout.initial.nodesFrom (front ++ rest)) := by
      rw [← hcut]
      exact mem_importTokens_iff.2 ⟨s, hs, himport, rfl⟩
    obtain ⟨more, hmore⟩ := exists_importTokens_prefix behind hclose hread
    rw [← hfront] at hmore
    obtain ⟨t, ht, himport', htokens⟩ := mem_importTokens_iff.1 hmore
    have hmem : p.token none ∈ t.leaves := by
      rw [t.leaves_of_isImport himport', htokens]
      exact List.mem_map_of_mem (List.mem_append_left _ hp)
    refine Tree.mem_tokens_iff.2 ⟨?_, rfl⟩
    refine Tree.nodes_subset (mem_nodes_parse_isImport.2 ⟨t, ht, himport', rfl⟩).1 ?_
    rw [t.nodes_tree]
    exact List.mem_cons_of_mem _ hmem
  feed_settled {s} hs := by
    obtain ⟨hparse, hgrammatical⟩ := parse_of_errorFree hs
    rw [layoutTrees_cons_feed, moduleOf_cons_feed] at hparse
    rw [hparse] at hgrammatical ⊢
    exact congrArg Tree.down (if_pos hgrammatical.of_down).symm

end Source
end CompletionPrompt
