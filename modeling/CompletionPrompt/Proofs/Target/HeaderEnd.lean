import CompletionPrompt.Proofs.Target.Cut

/-!
# Import statements and the end of a header

No import statement goes beyond the end of a header (`stop_le_or_headerEnd_le`). Those of a function
stand in its body, and what a body starts with in front of the end of the header is a docstring, which
holds none (`headerEnd_le_of_mem_body`). So the import statements of a source without errors stop before
the definition, or start where its header ends or later. The keyword that the definition starts with
stands between the two (`exists_token_of_function`).

Decorated definitions start their rows and decorators hold no import statements, so none stops in front
of the header of a definition that is decorated from the first row on (`headerEnd_lt_stop_of_first_row`).
-/

namespace CompletionPrompt
namespace Target

open Source

variable {text : List Char}

theorem isImport_of_isFunction {n : Tree} (h : n.isFunction = true) : n.isImport = false := by
  have hkind : n.label.kind = "function_definition" := of_decide_eq_true h
  simp [Tree.isImport, Tree.importKinds, hkind]

theorem isImport_of_holdsImport {c n : Tree} (h : c.holdsImport = false) (hn : n ∈ c.nodes) :
    n.isImport = false :=
  Bool.eq_false_iff.2 (List.any_eq_false.1 h n hn)

section
variable {t definition : Tree}

/-- No function stands in an import statement. -/
theorem not_mem_nodes_of_isImport {n : Tree} (hrules : t.KeepsImportRules) (hn : n ∈ t.nodes)
    (himport : n.isImport = true) (hfunction : definition.isFunction = true) :
    definition ∉ n.nodes := by
  intro hmem
  rw [Tree.nodes_eq, List.mem_cons] at hmem
  rcases hmem with rfl | hbelow
  · exact Bool.false_ne_true ((isImport_of_isFunction hfunction).symm.trans himport)
  · have hnot := (hrules.import_below n hn himport definition hbelow).1
    exact Bool.false_ne_true (hnot.symm.trans hfunction)

/-- An import statement in a body that starts with a docstring starts where the next statement or comment
does, or later. -/
theorem exists_next_of_mem_body {body n first : Tree} {others : List Tree}
    (hin : ∀ m ∈ t.nodes, m.StandsIn text) (hrules : t.Grammatical text) (hbody : body ∈ t.nodes)
    (hnamed : body.namedChildren = first :: others) (hdocstring : isDocstring first = true)
    (hn : n ∈ body.nodes) (himport : n.isImport = true) :
    ∃ next ∈ others.head?, next.start.offset ≤ n.start.offset := by
  have hnot : ∀ {d : Tree}, n ∈ d.nodes → d.holdsImport = false → False := fun hd hholds =>
    Bool.false_ne_true ((isImport_of_holdsImport hholds hd).symm.trans himport)
  have hexpression : first.label.kind = "expression_statement" :=
    of_decide_eq_true (Bool.and_eq_true_iff.1 hdocstring).1
  have hchildren : ∀ d ∈ first :: others, d ∈ body.children := fun d hd =>
    (List.mem_filter.1 (hnamed ▸ hd)).1
  rcases Tree.mem_nodes_iff.1 hn with rfl | ⟨d, hd, hnd⟩
  · -- the docstring would stand in the import statement
    have hkind := (hrules.import_below n hbody himport first (Tree.mem_nodesOfAll_iff.2
      ⟨first, hchildren first List.mem_cons_self, Tree.mem_nodes_self first⟩)).2
    exact absurd hexpression hkind
  have hdt := Tree.nodes_subset hbody (Tree.mem_nodes_of_mem_children hd)
  cases hdnamed : d.label.named with
  | false => exact (hnot hnd (hrules.unnamed_import d hdt hdnamed)).elim
  | true =>
    have hdmem : d ∈ first :: others := hnamed ▸ List.mem_filter.2 ⟨hd, hdnamed⟩
    rcases List.mem_cons.1 hdmem with rfl | hothers
    · exact (hnot hnd (hrules.expression_import d hdt hexpression)).elim
    have hordered : (first :: others).Pairwise fun a b => a.stop.offset ≤ b.start.offset :=
      hnamed ▸ (hin body hbody).ordered.sublist List.filter_sublist
    obtain ⟨next, more, rfl⟩ := List.exists_cons_of_ne_nil (List.ne_nil_of_mem hothers)
    have hnext := Tree.mem_nodes_of_mem_children (hchildren next (by simp))
    have hle := Tree.start_le_of_head? (List.pairwise_cons.1 hordered).2 rfl
      (hin next (Tree.nodes_subset hbody hnext)).le.1 hothers
    have hstart := (Tree.IsNested.le_of_mem_nodes
      (fun x hx => (hin x (Tree.nodes_subset hdt hx)).toIsNested) hnd).1
    exact ⟨next, rfl, Nat.le_trans hle hstart⟩

/-- An import statement in a body starts where the header ends, or later. -/
theorem headerEnd_le_of_mem_body {body n : Tree} (hin : ∀ m ∈ t.nodes, m.StandsIn text)
    (hrules : t.Grammatical text) (hbody : definition.child? "body" = some body)
    (hmem : body ∈ t.nodes) (hn : n ∈ body.nodes) (himport : n.isImport = true) :
    (headerEnd definition).offset ≤ n.start.offset := by
  rcases headerEnd_eq definition with ⟨hnone, -⟩ | ⟨body', hbody', hend⟩
  · simp [hnone] at hbody
  obtain rfl := Option.some.inj (hbody.symm.trans hbody')
  rcases hend with hend | ⟨first, others, hnamed, hdocstring, hend⟩
  · rw [hend]
    exact (Tree.IsNested.le_of_mem_nodes
      (fun x hx => (hin x (Tree.nodes_subset hmem hx)).toIsNested) hn).1
  · obtain ⟨next, hnext, hle⟩ :=
      exists_next_of_mem_body hin hrules hmem hnamed hdocstring hn himport
    rw [hend, hnext, Option.map_some, Option.getD_some]
    exact hle

/-- A header ends in the body when there is one. -/
theorem headerEnd_mem_body {body : Tree} (hin : ∀ m ∈ t.nodes, m.StandsIn text)
    (hbody : definition.child? "body" = some body) (hmem : body ∈ t.nodes) :
    body.start.offset ≤ (headerEnd definition).offset ∧
      (headerEnd definition).offset ≤ body.stop.offset := by
  obtain ⟨n, hn, hend⟩ := (exists_headerEnd definition).2 body hbody
  have hinside := Tree.IsNested.le_of_mem_nodes
    (fun x hx => (hin x (Tree.nodes_subset hmem hx)).toIsNested) hn
  have hroom := (hin n (Tree.nodes_subset hmem hn)).le.1
  rcases hend with hend | hend <;> rw [hend] <;> omega

/-- A child that the definition knows as its body is the body, or it stands behind the body. -/
theorem exists_body {c : Tree} (hnested : definition.IsNested) (hc : c ∈ definition.children)
    (hfield : c.label.field = some "body") :
    ∃ body, definition.child? "body" = some body ∧
      (c = body ∨ body.stop.offset ≤ c.start.offset) := by
  obtain ⟨body, hbody⟩ := Option.isSome_iff_exists.1
    (List.find?_isSome.2 ⟨c, hc, decide_eq_true hfield⟩ : (definition.child? "body").isSome)
  refine ⟨body, hbody, ?_⟩
  obtain ⟨-, before, after, hchildren, hbefore⟩ := Tree.child?_eq_some_iff.1 hbody
  have hordered := hnested.ordered
  rw [hchildren] at hc hordered
  rcases List.mem_append.1 hc with hc | hc
  · exact absurd hfield (hbefore c hc)
  · exact (List.mem_cons.1 hc).imp_right
      ((List.pairwise_cons.1 (List.pairwise_append.1 hordered).2.1).1 c)

/-- **No import statement goes beyond the end of a header.** Those in front of the definition stop
before it, and the others start where the header ends, or later. -/
theorem stop_le_or_headerEnd_le {n : Tree} (hin : ∀ m ∈ t.nodes, m.StandsIn text)
    (hrules : t.Grammatical text) (hdefinition : definition ∈ t.nodes)
    (hfunction : definition.isFunction = true) (hn : n ∈ t.nodes) (himport : n.isImport = true) :
    n.stop.offset ≤ definition.start.offset ∨
      (headerEnd definition).offset ≤ n.start.offset := by
  have hnested : ∀ m ∈ t.nodes, m.IsNested := fun m hm => (hin m hm).toIsNested
  have hend := headerEnd_mem fun m hm => hin m (Tree.nodes_subset hdefinition hm)
  rcases Tree.IsNested.below_or_apart hnested hdefinition hn with h | h | h | h
  · exact absurd h (not_mem_nodes_of_isImport hrules.toKeepsImportRules hn himport hfunction)
  · rcases Tree.mem_nodes_iff.1 h with rfl | ⟨c, hc, hnc⟩
    · exact absurd himport (by simp [isImport_of_isFunction hfunction])
    by_cases hfield : c.label.field = some "body"
    · obtain ⟨body, hbody, hbehind⟩ := exists_body (hnested _ hdefinition) hc hfield
      have hmem := Tree.nodes_subset hdefinition
        (Tree.mem_nodes_of_mem_children (List.mem_of_find?_eq_some hbody))
      rcases hbehind with rfl | hbehind
      · exact .inr (headerEnd_le_of_mem_body hin hrules hbody hmem hnc himport)
      · have hstop := (headerEnd_mem_body hin hbody hmem).2
        have hct := Tree.nodes_subset hdefinition (Tree.mem_nodes_of_mem_children hc)
        have hstart := (Tree.IsNested.le_of_mem_nodes
          (fun x hx => hnested x (Tree.nodes_subset hct hx)) hnc).1
        exact .inr (by omega)
    · have hholds := hrules.function_import definition hdefinition hfunction c hc hfield
      exact absurd himport (by simp [isImport_of_holdsImport hholds hnc])
  · exact .inr (Nat.le_trans hend.2 h)
  · exact .inl h

/-- A function starts with a token in its header. -/
theorem exists_token_of_function (hin : ∀ m ∈ t.nodes, m.StandsIn text)
    (hrules : t.KeepsFunctionRules) (hdefinition : definition ∈ t.nodes)
    (hfunction : definition.isFunction = true) :
    ∃ k ∈ t.tokens, definition.start.offset ≤ k.start.offset ∧ k.start.offset < k.stop.offset ∧
      k.stop.offset ≤ (headerEnd definition).offset := by
  obtain ⟨k, hk, hfield, htoken, hroom⟩ :=
    hrules.function_first definition hdefinition hfunction
  have hnested := (hin _ hdefinition).toIsNested
  have hmem := List.mem_of_mem_head? hk
  have hkt := Tree.nodes_subset hdefinition (Tree.mem_nodes_of_mem_children hmem)
  have hinside := hnested.inside k hmem
  refine ⟨k, Tree.mem_tokens_iff.2 ⟨hkt, htoken⟩, hinside.1, hroom, ?_⟩
  rcases headerEnd_eq definition with ⟨-, hend⟩ | ⟨body, hbody, -⟩
  · exact hend ▸ hinside.2
  · -- the body stands behind the first child
    have hbodymem := List.mem_of_find?_eq_some hbody
    obtain ⟨rest, hchildren⟩ := List.head?_eq_some_iff.1 hk
    have hordered := hnested.ordered
    rw [hchildren] at hordered hbodymem
    have hne : body ≠ k := by
      rintro rfl
      exact hfield (Tree.child?_eq_some_iff.1 hbody).1
    have hle := (List.pairwise_cons.1 hordered).1 body ((List.mem_cons.1 hbodymem).resolve_left hne)
    have hstart := (headerEnd_mem_body hin hbody (Tree.nodes_subset hdefinition
      (Tree.mem_nodes_of_mem_children (List.mem_of_find?_eq_some hbody)))).1
    exact Nat.le_trans hle hstart

/-- An import statement below what is decorated starts no earlier than the definition, since decorators
hold none. -/
theorem start_le_of_isDecorated {d n : Tree} (hin : ∀ m ∈ t.nodes, m.StandsIn text)
    (hrules : t.KeepsDecoratorRules) (hd : d ∈ t.nodes) (hdecorated : d.isDecorated = true)
    (hmem : definition ∈ d.children) (hn : n ∈ Tree.nodesOfAll d.children) (himport : n.isImport = true) :
    definition.start.offset ≤ n.start.offset := by
  have hchildren : ∀ c ∈ d.children, c ∈ t.nodes := fun c hc =>
    Tree.nodes_subset hd (Tree.mem_nodes_of_mem_children hc)
  obtain ⟨c, hc, hnc⟩ := Tree.mem_nodesOfAll_iff.1 hn
  have hstart := (Tree.IsNested.le_of_mem_nodes
    (fun x hx => (hin x (Tree.nodes_subset (hchildren c hc) hx)).toIsNested) hnc).1
  have hroom := (hin definition (hchildren definition hmem)).le.1
  have hordered := (hin d hd).ordered
  have hdrop := hrules.decorated_import d hd hdecorated
  obtain ⟨front, last, hlast⟩ :=
    (List.eq_nil_or_concat' d.children).resolve_left (List.ne_nil_of_mem hc)
  rw [hlast, List.dropLast_concat] at hdrop
  rw [hlast] at hc hmem hordered
  -- the import statement stands in the last child
  rcases List.mem_append.1 hc with hc | hc
  · exact absurd himport (by simp [isImport_of_holdsImport (hdrop c hc) hnc])
  obtain rfl := List.mem_singleton.1 hc
  rcases List.mem_append.1 hmem with hmem | hmem
  · have hle := (List.pairwise_append.1 hordered).2.2 definition hmem c List.mem_cons_self
    omega
  · rwa [List.mem_singleton.1 hmem]

/-- **No import statement stands in front of a definition that is decorated from the first row on,** or
in its header. -/
theorem headerEnd_lt_stop_of_first_row {parent : Option Tree} {n : Tree}
    (hin : ∀ m ∈ t.nodes, m.StandsIn text) (hrules : t.Grammatical text)
    (hchild : IsChild t parent definition) (hfunction : definition.isFunction = true)
    (hrow : (outer parent definition).start.row = 0) (hbelow : 0 < definition.start.row)
    (hn : n ∈ t.nodes) (himport : n.isImport = true) (hroom : n.start.offset < n.stop.offset) :
    (headerEnd definition).offset < n.stop.offset := by
  have hnested : ∀ m ∈ t.nodes, m.IsNested := fun m hm => (hin m hm).toIsNested
  have hnot := not_mem_nodes_of_isImport hrules.toKeepsImportRules hn himport hfunction
  have hside := stop_le_or_headerEnd_le hin hrules hchild.mem hfunction hn himport
  obtain ⟨houter, hsame | ⟨hdecorated, hmem⟩⟩ := hchild.outer
  · rw [hsame] at hrow
    omega
  have hinside := (hnested _ houter).inside _ hmem
  have hle := (hin _ hchild.mem).le.1
  rcases Tree.IsNested.below_or_apart hnested houter hn with h | h | h | h
  · exact absurd (Tree.nodes_subset h (Tree.mem_nodes_of_mem_children hmem)) hnot
  · rw [Tree.nodes_eq, List.mem_cons] at h
    rcases h with rfl | h
    · exact absurd (Tree.mem_nodes_of_mem_children hmem) hnot
    · have hstart := start_le_of_isDecorated hin hrules.toKeepsDecoratorRules houter hdecorated hmem h
        himport
      omega
  · omega
  · have hrows := hrules.decorated_row _ houter hdecorated n hn himport h
    omega

/-- A header ends where a beginning of the source ends. -/
theorem exists_headerEnd_eq_endOf (hin : ∀ m ∈ t.nodes, m.StandsIn text)
    (hdefinition : definition ∈ t.nodes) :
    ∃ u v, text = u ++ v ∧ headerEnd definition = Place.endOf u := by
  obtain ⟨n, hn, hend⟩ := (exists_headerEnd definition).1
  obtain ⟨before, covered, after, htext, hstart, hstop⟩ :=
    (hin n (Tree.nodes_subset hdefinition hn)).between
  rcases hend with hend | hend
  · exact ⟨before, covered ++ after, by rw [htext, List.append_assoc], hend.trans hstart⟩
  · exact ⟨before ++ covered, after, htext, hend.trans hstop⟩

end

end Target
end CompletionPrompt
