import CompletionPrompt.Proofs.Source.LayoutTree
import CompletionPrompt.Proofs.Text.Place
import CompletionPrompt.Target

/-!
# Where a target is cut out of its source

A target is a cut of its source (`Target.IsCut`): the header is a stretch of the source that starts
where a row starts, and the prelude is the rows above. So its text is the beginning of the source
down to the end of the header, less the line feed in front of the header when there is none because
the header starts on the first row.

The definition is the first of its name in the order in which nodes are met going down
(`exists_of_find?_eq_some`). Another one is below it or behind it, so it starts later where functions
start with a token (`start_lt_of_defines`). The row is the one that the definition starts on, or that
all that is decorated starts on when the definition is decorated (`Target.outer`). The header ends where
a node of the definition starts or stops (`exists_headerEnd`).
-/

namespace CompletionPrompt
namespace Target

open Source

variable {text : List Char}

/-! ### The definition -/

section
variable (p : Tree → Bool)

mutual

/-- A search finds the first node in the order in which nodes are met. -/
theorem map_find? (parent : Option Tree) :
    ∀ t : Tree, (find? p parent t).map (·.2) = t.nodes.find? p
  | .node label children => by
    rw [find?, Tree.nodes, List.find?_cons]
    cases p (.node label children) with
    | true => rfl
    | false => exact map_findAmong? (some (.node label children)) children

theorem map_findAmong? (parent : Option Tree) :
    ∀ ts : List Tree, (findAmong? p parent ts).map (·.2) = (Tree.nodesOfAll ts).find? p
  | [] => rfl
  | t :: ts => by
    rw [findAmong?, Tree.nodesOfAll, List.find?_append, ← map_find? parent t,
      ← map_findAmong? parent ts]
    cases find? p parent t <;> rfl

end

/-- A node is the child of another, or else a tree in all. -/
def IsChild (t : Tree) (parent : Option Tree) (n : Tree) : Prop :=
  parent = none ∧ n = t ∨ ∃ m ∈ t.nodes, parent = some m ∧ n ∈ m.children

mutual

/-- A search gives the node with its parent. -/
theorem parent_of_find? {parent : Option Tree} {r : Option Tree × Tree} :
    ∀ {t : Tree}, find? p parent t = some r →
      r = (parent, t) ∨ ∃ m ∈ t.nodes, r.1 = some m ∧ r.2 ∈ m.children
  | .node label children => fun h => by
    rw [find?] at h
    split at h
    · exact .inl (Option.some.inj h).symm
    · rcases parent_of_findAmong? h with ⟨hparent, hmem⟩ | ⟨m, hm, hr⟩
      · exact .inr ⟨_, Tree.mem_nodes_self _, hparent, hmem⟩
      · exact .inr ⟨m, List.mem_cons_of_mem _ hm, hr⟩

theorem parent_of_findAmong? {parent : Option Tree} {r : Option Tree × Tree} :
    ∀ {ts : List Tree}, findAmong? p parent ts = some r →
      (r.1 = parent ∧ r.2 ∈ ts) ∨ ∃ m ∈ Tree.nodesOfAll ts, r.1 = some m ∧ r.2 ∈ m.children
  | [] => fun h => by cases h
  | t :: ts => fun h => by
    rw [findAmong?] at h
    rcases Option.or_eq_some_iff.1 h with h | ⟨-, h⟩
    · rcases parent_of_find? h with rfl | ⟨m, hm, hr⟩
      · exact .inl ⟨rfl, List.mem_cons_self⟩
      · exact .inr ⟨m, List.mem_append_left _ hm, hr⟩
    · rcases parent_of_findAmong? h with ⟨hparent, hmem⟩ | ⟨m, hm, hr⟩
      · exact .inl ⟨hparent, List.mem_cons_of_mem _ hmem⟩
      · exact .inr ⟨m, List.mem_append_right _ hm, hr⟩

end

end

/-- **A search ends at the first node with the property,** and gives its parent. -/
theorem exists_of_find?_eq_some {p : Tree → Bool} {t definition : Tree} {parent : Option Tree}
    (h : find? p none t = some (parent, definition)) :
    IsChild t parent definition ∧ ∃ before after,
      t.nodes = before ++ definition :: after ∧ p definition = true ∧
        ∀ n ∈ before, p n = false := by
  constructor
  · rcases parent_of_find? p h with heq | hchild
    · obtain ⟨rfl, rfl⟩ := Prod.mk.inj heq
      exact .inl ⟨rfl, rfl⟩
    · exact .inr hchild
  · have hfirst : t.nodes.find? p = some definition := by
      rw [← map_find? p none, h]
      rfl
    obtain ⟨hp, before, after, hnodes, hbefore⟩ := List.find?_eq_some_iff_append.1 hfirst
    exact ⟨before, after, hnodes, hp, fun n hn => by simpa using hbefore n hn⟩

theorem IsChild.mem {t n : Tree} {parent : Option Tree} (h : IsChild t parent n) : n ∈ t.nodes := by
  rcases h with ⟨-, rfl⟩ | ⟨m, hm, -, hn⟩
  · exact Tree.mem_nodes_self n
  · exact Tree.nodes_subset hm (Tree.mem_nodes_of_mem_children hn)

/-- What a target starts with is the definition or holds it as a child. -/
theorem IsChild.outer {t definition : Tree} {parent : Option Tree} (h : IsChild t parent definition) :
    outer parent definition ∈ t.nodes ∧ (outer parent definition = definition ∨
      (outer parent definition).isDecorated = true ∧
        definition ∈ (outer parent definition).children) := by
  rcases h with ⟨rfl, rfl⟩ | ⟨m, hm, rfl, hmem⟩
  · exact ⟨Tree.mem_nodes_self _, .inl rfl⟩
  · unfold Target.outer
    dsimp only
    split
    · rename_i hdecorated
      exact ⟨hm, .inr ⟨decide_eq_true hdecorated, hmem⟩⟩
    · exact ⟨Tree.nodes_subset hm (Tree.mem_nodes_of_mem_children hmem), .inl rfl⟩

theorem not_defines_of_isToken {name : List Char} {t : Tree} (h : t.isToken = true) :
    defines text name t = false := by
  have hchildren : t.children = [] := List.isEmpty_iff.1 h
  simp [defines, Tree.child?, hchildren]

theorem isFunction_of_defines {name : List Char} {t : Tree} (h : defines text name t = true) :
    t.isFunction = true :=
  (Bool.and_eq_true_iff.1 h).1

/-- Below a function there is a token in front, so nothing else below it starts where it does. -/
theorem start_lt_of_function {t n m : Tree} (hnested : ∀ n ∈ t.nodes, n.IsNested)
    (hrules : t.KeepsFunctionRules) (hn : n ∈ t.nodes) (hfunction : n.isFunction = true) :
    n.start.offset < n.stop.offset ∧
      (m ∈ n.nodes → m = n ∨ m.isToken = true ∨ n.start.offset < m.start.offset) := by
  obtain ⟨k, hk, -, htoken, hroom⟩ := hrules.function_first n hn hfunction
  obtain ⟨cs, hchildren⟩ := List.head?_eq_some_iff.1 hk
  have hkmem : k ∈ n.children := hchildren ▸ List.mem_cons_self
  have hinside := (hnested n hn).inside k hkmem
  refine ⟨by omega, fun hm => ?_⟩
  rcases Tree.mem_nodes_iff.1 hm with rfl | ⟨c, hc, hmc⟩
  · exact .inl rfl
  rw [hchildren] at hc
  rcases List.mem_cons.1 hc with rfl | hcs
  · -- the token itself
    refine .inr (.inl ?_)
    rw [Tree.nodes_eq, List.isEmpty_iff.1 htoken, Tree.nodesOfAll_nil, List.mem_singleton] at hmc
    exact hmc ▸ htoken
  · have hordered := (hnested n hn).ordered
    rw [hchildren] at hordered
    have hkc := (List.pairwise_cons.1 hordered).1 c hcs
    have hcn : c ∈ n.children := hchildren ▸ hc
    have hcm := (Tree.IsNested.le_of_mem_nodes
      (fun x hx => hnested x (Tree.nodes_subset (Tree.nodes_subset hn
        (Tree.mem_nodes_of_mem_children hcn)) hx)) hmc).1
    exact .inr (.inr (by omega))

/-- The definition that a search ends at starts before the others of its name. -/
theorem start_lt_of_defines {name : List Char} {t definition : Tree} {before after : List Tree}
    (hin : ∀ n ∈ t.nodes, n.StandsIn text) (h : t.nodes = before ++ definition :: after)
    (hdefines : defines text name definition = true)
    (hbefore : ∀ n ∈ before, defines text name n = false) {d : Tree} (hd : d ∈ t.nodes)
    (hdname : defines text name d = true) :
    definition.start.offset ≤ d.start.offset ∧
      (t.KeepsFunctionRules → d = definition ∨ definition.start.offset < d.start.offset) := by
  have hnested : ∀ n ∈ t.nodes, n.IsNested := fun n hn => (hin n hn).toIsNested
  have hdefinition : definition ∈ t.nodes := by simp [h]
  have hroom := (hin _ hdefinition).le.1
  have hpairwise := Tree.IsNested.pairwise_nodes hnested
  rw [h] at hd hpairwise
  rcases List.mem_append.1 hd with hd | hd
  · exact absurd hdname (by simp [hbefore d hd])
  rcases List.mem_cons.1 hd with rfl | hafter
  · exact ⟨Nat.le_refl _, fun _ => .inl rfl⟩
  rcases (List.pairwise_cons.1 (List.pairwise_append.1 hpairwise).2.1).1 d hafter with hbelow | hbehind
  · refine ⟨(Tree.IsNested.le_of_mem_nodes
      (fun n hn => hnested n (Tree.nodes_subset hdefinition hn)) hbelow).1, fun hrules => ?_⟩
    rcases (start_lt_of_function hnested hrules hdefinition (isFunction_of_defines hdefines)).2 hbelow
      with hsame | htoken | hlt
    · exact .inl hsame
    · exact absurd hdname (by simp [not_defines_of_isToken htoken])
    · exact .inr hlt
  · refine ⟨Nat.le_trans hroom hbehind, fun hrules => .inr ?_⟩
    have hlt := (start_lt_of_function (m := d) hnested hrules hdefinition
      (isFunction_of_defines hdefines)).1
    omega

/-! ### The end of the header -/

/-- Where a header ends: with its definition when that has no body, and else where the body starts or
behind its docstring. -/
theorem headerEnd_eq (definition : Tree) :
    (definition.child? "body" = none ∧ headerEnd definition = definition.stop) ∨
      ∃ body, definition.child? "body" = some body ∧ (headerEnd definition = body.start ∨
        ∃ first others, body.namedChildren = first :: others ∧ isDocstring first = true ∧
          headerEnd definition = (others.head?.map Tree.start).getD first.stop) := by
  unfold headerEnd
  cases hbody : definition.child? "body" with
  | none => exact .inl ⟨rfl, rfl⟩
  | some body =>
    refine .inr ⟨body, rfl, ?_⟩
    dsimp only
    cases hnamed : body.namedChildren with
    | nil => exact .inl rfl
    | cons first others =>
      dsimp only
      split
      · rename_i hdocstring
        exact .inr ⟨first, others, rfl, hdocstring, rfl⟩
      · exact .inl rfl

/-- A header ends where a node of the definition starts or stops, and that of the body when there is
one. -/
theorem exists_headerEnd (definition : Tree) :
    (∃ n ∈ definition.nodes, headerEnd definition = n.start ∨ headerEnd definition = n.stop) ∧
      ∀ body ∈ definition.child? "body",
        ∃ n ∈ body.nodes, headerEnd definition = n.start ∨ headerEnd definition = n.stop := by
  rcases headerEnd_eq definition with ⟨hnone, hend⟩ | ⟨body, hbody, hend⟩
  · exact ⟨⟨definition, Tree.mem_nodes_self _, .inr hend⟩, fun body hbody => by simp [hnone] at hbody⟩
  have hexists : ∃ n ∈ body.nodes, headerEnd definition = n.start ∨ headerEnd definition = n.stop := by
    rcases hend with hend | ⟨first, others, hnamed, -, hend⟩
    · exact ⟨body, Tree.mem_nodes_self _, .inl hend⟩
    have hmem : ∀ n ∈ first :: others, n ∈ body.nodes := fun n hn =>
      Tree.mem_nodes_of_mem_children (List.mem_filter.1 (hnamed ▸ hn)).1
    cases others with
    | nil => exact ⟨first, hmem first List.mem_cons_self, .inr hend⟩
    | cons next others => exact ⟨next, hmem next (by simp), .inl hend⟩
  refine ⟨?_, fun body' hbody' => ?_⟩
  · obtain ⟨n, hn, hend⟩ := hexists
    exact ⟨n, Tree.nodes_subset (Tree.mem_nodes_of_mem_children (List.mem_of_find?_eq_some hbody)) hn,
      hend⟩
  · obtain rfl := Option.some.inj (hbody.symm.trans hbody')
    exact hexists

/-- A header ends in its definition. -/
theorem headerEnd_mem {definition : Tree} (h : ∀ n ∈ definition.nodes, n.StandsIn text) :
    definition.start.offset ≤ (headerEnd definition).offset ∧
      (headerEnd definition).offset ≤ definition.stop.offset := by
  obtain ⟨n, hn, hend⟩ := (exists_headerEnd definition).1
  have hinside := Tree.IsNested.le_of_mem_nodes (fun n hn => (h n hn).toIsNested) hn
  have hroom := (h n hn).le.1
  rcases hend with hend | hend <;> rw [hend] <;> omega

/-! ### The cut -/

/-- A target is cut out of a text at a row: its header goes from the start of the row to an offset,
and its prelude is the rows above. -/
structure IsCut (t : Target) (text : List Char) (row stop : Nat) : Prop where
  header : ∃ above below, text = above ++ t.header.toList ++ below ∧
    Text.endOf above = (row, 0) ∧ (above ++ t.header.toList).length = stop
  below_first : 0 < row → (t.prelude ++ "\n" ++ t.header).toList <+: text ∧
    t.prelude.toList = Text.unrows ((Text.rows text).take row)
  at_first : row = 0 → t.prelude = "" ∧ ∃ front, front <+: text ∧ t.source.toList = '\n' :: front

section
variable (path : Path)

theorem isCut_first (header below : List Char) :
    IsCut ⟨path, "", String.ofList header⟩ (header ++ below) 0 header.length where
  header := ⟨[], below, by simp, rfl, by simp⟩
  below_first h := absurd h (Nat.lt_irrefl 0)
  at_first _ := ⟨rfl, header, List.prefix_append header below, by simp [source]⟩

theorem isCut_below (above header below : List Char) :
    IsCut ⟨path, String.ofList above, String.ofList header⟩ (above ++ '\n' :: (header ++ below))
      (Text.rows above).length (above ++ '\n' :: header).length where
  header := ⟨above ++ ['\n'], below, by simp, Text.endOf_append_feed above, by simp⟩
  below_first _ := by
    constructor
    · simp
    · rw [Text.unrows_take_rows, String.toList_ofList]
  at_first h := absurd h (Nat.ne_of_gt (List.length_pos_iff.2 (Text.rows_ne_nil above)))

/-- The row that a place stands on starts behind a line feed, or where the text starts. -/
theorem exists_splitRow (before after : List Char) :
    ∃ above row, before = above ++ row ∧
      splitRow (before ++ after) (Place.endOf before) = (above, row ++ after) ∧
      Text.lineFeeds above = Text.lineFeeds before ∧ (above = [] ∨ above.getLast? = some '\n') := by
  obtain ⟨row, hbefore, -⟩ := Text.exists_dropEndWhile_append (· != '\n') before
  have hsplit : splitRow (before ++ after) (Place.endOf before) =
      (Text.dropEndWhile (· != '\n') before,
        (before ++ after).drop (Text.dropEndWhile (· != '\n') before).length) := by
    simp [splitRow, Place.endOf]
  have habove := Text.lastRow_eq_nil_iff.1 (Text.lastRow_dropEndWhile before)
  refine ⟨_, row, hbefore, ?_, Text.lineFeeds_dropEndWhile before, habove⟩
  rw [hsplit]
  generalize Text.dropEndWhile (· != '\n') before = above at hbefore ⊢
  rw [hbefore, List.append_assoc, List.drop_left]

/-- **A text is cut at the row that a place of it stands on.** -/
theorem isCut_splitRow {before after : List Char} {stop : Nat} (hle : before.length ≤ stop)
    (hstop : stop ≤ (before ++ after).length) :
    let cut := splitRow (before ++ after) (Place.endOf before)
    IsCut ⟨path, String.ofList (dropLineFeed cut.1),
      String.ofList (cut.2.take (stop - cut.1.length))⟩ (before ++ after)
      (Text.lineFeeds before) stop := by
  obtain ⟨above, row, hbefore, hsplit, hfeeds, habove⟩ := exists_splitRow before after
  rw [hsplit, ← hfeeds]
  subst hbefore
  simp only [List.append_assoc, List.length_append] at hle hstop ⊢
  obtain ⟨k, rfl⟩ := Nat.exists_eq_add_of_le (show above.length ≤ stop by omega)
  rw [Nat.add_sub_cancel_left]
  have hlength : ((row ++ after).take k).length = k :=
    List.length_take_of_le (by simp only [List.length_append]; omega)
  rcases habove with rfl | hfeed
  · have hcut := isCut_first path ((row ++ after).take k) ((row ++ after).drop k)
    rw [List.take_append_drop, hlength] at hcut
    simpa [dropLineFeed] using hcut
  · obtain ⟨front, rfl⟩ := List.getLast?_eq_some_iff.1 hfeed
    have hcut := isCut_below path front ((row ++ after).take k) ((row ++ after).drop k)
    have hend : (front ++ '\n' :: (row ++ after).take k).length = (front ++ ['\n']).length + k := by
      rw [List.append_cons, List.length_append, hlength]
    have hfeeds : (Text.rows front).length = Text.lineFeeds (front ++ ['\n']) := by
      rw [Text.length_rows, Text.lineFeeds_append]
      rfl
    rw [List.take_append_drop, hend, hfeeds, List.append_cons] at hcut
    simpa [dropLineFeed] using hcut

end

/-- A located target is cut at the row that the first definition of the name starts on, or all that is
decorated, down to where the header of the definition ends. -/
theorem exists_of_locate [Parser] {path : Path} {text name : String} {target : Target}
    (h : locate path text name = .ok target) :
    ∃ parent definition before after,
      IsChild (parse text.toList) parent definition ∧
      (parse text.toList).nodes = before ++ definition :: after ∧
      defines text.toList name.toList definition = true ∧
      (∀ n ∈ before, defines text.toList name.toList n = false) ∧
      let cut := splitRow text.toList (outer parent definition).start
      target = ⟨path, String.ofList (dropLineFeed cut.1),
        String.ofList (cut.2.take ((headerEnd definition).offset - cut.1.length))⟩ := by
  unfold locate at h
  split at h
  · cases h
  rename_i parent definition hfind
  obtain ⟨hchild, before, after, hnodes, hdefines, hbefore⟩ := exists_of_find?_eq_some hfind
  exact ⟨parent, definition, before, after, hchild, hnodes, hdefines, hbefore,
    (Except.ok.inj h).symm⟩

/-- What a target starts with starts where a beginning of the source ends, and the header ends no
earlier. -/
theorem IsChild.exists_start {t definition : Tree} {parent : Option Tree}
    (h : IsChild t parent definition) (hin : ∀ n ∈ t.nodes, n.StandsIn text) :
    ∃ front rest, text = front ++ rest ∧ (Target.outer parent definition).start = Place.endOf front ∧
      front.length ≤ (headerEnd definition).offset ∧
      (headerEnd definition).offset ≤ text.length := by
  obtain ⟨houter, hholds⟩ := h.outer
  obtain ⟨hstart, hstop⟩ := headerEnd_mem fun n hn => hin n (Tree.nodes_subset h.mem hn)
  have hle : (Target.outer parent definition).start.offset ≤ definition.start.offset := by
    rcases hholds with heq | ⟨-, hmem⟩
    · rw [heq]
    · exact ((hin _ houter).inside _ hmem).1
  have hlength := (hin _ h.mem).le.2
  obtain ⟨front, covered, behind, htext, hfront, -⟩ := (hin _ houter).between
  rw [hfront] at hle
  exact ⟨front, covered ++ behind, by rw [htext, List.append_assoc], hfront,
    Nat.le_trans hle hstart, Nat.le_trans hstop hlength⟩

/-- **A located target is a cut of its source.** The definition is the first of its name in the source:
no other starts before it, or even where it does in a source without errors. The target is cut out at
the row where the definition starts, or all that is decorated, from its first decorator on, and ends
where the header of the definition ends. -/
theorem locate_isCut [Parser] [LawfulParser] [GrammaticalParser] {path : Path} {text name : String}
    {target : Target} (h : locate path text name = .ok target) :
    ∃ parent definition,
      IsChild (parse text.toList) parent definition ∧
      defines text.toList name.toList definition = true ∧
      (∀ d ∈ (parse text.toList).nodes, defines text.toList name.toList d = true →
        definition.start.offset ≤ d.start.offset ∧
          ((parse text.toList).ErrorFree →
            d = definition ∨ definition.start.offset < d.start.offset)) ∧
      (∀ c ∈ (outer parent definition).children.head?,
        c.start = (outer parent definition).start) ∧
      definition.start.offset ≤ (headerEnd definition).offset ∧
      (headerEnd definition).offset ≤ definition.stop.offset ∧
      target.IsCut text.toList (outer parent definition).start.row
        (headerEnd definition).offset := by
  obtain ⟨parent, definition, before, after, hchild, hnodes, hdefines, hbefore, rfl⟩ :=
    exists_of_locate h
  have hin : ∀ n ∈ (parse text.toList).nodes, n.StandsIn text.toList := fun n hn =>
    LawfulParser.standsIn hn
  obtain ⟨hstart, hstop⟩ := headerEnd_mem fun n hn => hin n (Tree.nodes_subset hchild.mem hn)
  obtain ⟨houter, hkind⟩ := hchild.outer
  have hfirst := LawfulParser.definition_first houter <| hkind.imp
    (fun heq => by rw [heq, isFunction_of_defines hdefines]) And.left
  refine ⟨parent, definition, hchild, hdefines, fun d hd hdname => ?_, hfirst, hstart, hstop, ?_⟩
  · obtain ⟨hle, hlt⟩ := start_lt_of_defines hin hnodes hdefines hbefore hd hdname
    exact ⟨hle, fun hfree => hlt (GrammaticalParser.grammatical hfree).toKeepsFunctionRules⟩
  · obtain ⟨front, rest, htext, hfront, hle, hlength⟩ := hchild.exists_start hin
    rw [hfront, htext]
    exact isCut_splitRow path hle (htext ▸ hlength)

/-- The first method of a name is located with both of its decorators, up to what follows its
docstring; the function of that name comes later. -/
theorem locate_isCut_of_decorated :
    let path : Path := ⟨"/proj/main.py"⟩
    let text := "class A:\n    @one\n    # why\n    @two\n    def go(self):\n        'Go.'\n" ++
      "        pass\ndef go():\n    pass\n"
    let target : Target := ⟨path, "class A:",
      "    @one\n    # why\n    @two\n    def go(self):\n        'Go.'\n        "⟩
    locate path text "go" = .ok target ∧ (parse text.toList).ErrorFree ∧
      ∃ parent definition,
        IsChild (parse text.toList) parent definition ∧
        defines text.toList "go".toList definition = true ∧
        (∀ d ∈ (parse text.toList).nodes, defines text.toList "go".toList d = true →
          d = definition ∨ definition.start.offset < d.start.offset) ∧
        target.IsCut text.toList (outer parent definition).start.row
          (headerEnd definition).offset := by
  intro path text target
  have hlocate : locate path text "go" = .ok target := by decide +kernel
  have hfree : (parse text.toList).ErrorFree := by decide +kernel
  obtain ⟨parent, definition, hchild, hdefines, hothers, -, -, -, hcut⟩ := locate_isCut hlocate
  exact ⟨hlocate, hfree, parent, definition, hchild, hdefines,
    fun d hd hdname => (hothers d hd hdname).2 hfree, hcut⟩

end Target
end CompletionPrompt
