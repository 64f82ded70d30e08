import CompletionPrompt.Source.Tree
import Mathlib.Data.List.Pairwise

/-!
# Nodes of a syntax tree

The nodes of a tree are the node itself and the nodes of its children, one child after the other
(`nodes_eq`). Where the children of every node stand inside it and behind one another
(`Tree.IsNested`), so do all nodes below it (`IsNested.le_of_mem_nodes`), and of two nodes one is
below the other or they stand apart (`IsNested.below_or_apart`).
-/

namespace CompletionPrompt
namespace Source
namespace Tree

theorem nodes_eq (t : Tree) : t.nodes = t :: nodesOfAll t.children := by
  cases t
  rfl

theorem mem_nodes_self (t : Tree) : t ∈ t.nodes :=
  nodes_eq t ▸ List.mem_cons_self

@[simp] theorem nodesOfAll_nil : nodesOfAll [] = [] := rfl

@[simp] theorem nodesOfAll_cons (t : Tree) (ts : List Tree) :
    nodesOfAll (t :: ts) = t.nodes ++ nodesOfAll ts :=
  rfl

theorem nodesOfAll_eq_flatMap (ts : List Tree) : nodesOfAll ts = ts.flatMap nodes := by
  induction ts with
  | nil => rfl
  | cons t ts ih => rw [nodesOfAll_cons, ih, List.flatMap_cons]

@[simp] theorem nodesOfAll_append (ts us : List Tree) :
    nodesOfAll (ts ++ us) = nodesOfAll ts ++ nodesOfAll us := by
  simp only [nodesOfAll_eq_flatMap, List.flatMap_append]

theorem mem_nodesOfAll_iff {n : Tree} {ts : List Tree} :
    n ∈ nodesOfAll ts ↔ ∃ t ∈ ts, n ∈ t.nodes := by
  rw [nodesOfAll_eq_flatMap, List.mem_flatMap]

theorem mem_nodes_iff {n t : Tree} : n ∈ t.nodes ↔ n = t ∨ ∃ c ∈ t.children, n ∈ c.nodes := by
  rw [nodes_eq, List.mem_cons, mem_nodesOfAll_iff]

theorem mem_nodes_of_mem_children {c t : Tree} (h : c ∈ t.children) : c ∈ t.nodes :=
  mem_nodes_iff.2 (.inr ⟨c, h, mem_nodes_self c⟩)

mutual

/-- What holds of a node when it holds of its children holds of every node. -/
theorem induction_children {P : Tree → Prop} (h : ∀ t : Tree, (∀ c ∈ t.children, P c) → P t) :
    ∀ t, P t
  | .node label children => h (.node label children) (induction_all h children)

theorem induction_all {P : Tree → Prop} (h : ∀ t : Tree, (∀ c ∈ t.children, P c) → P t) :
    ∀ ts : List Tree, ∀ c ∈ ts, P c
  | [] => fun _ hc => absurd hc List.not_mem_nil
  | t :: ts => fun c hc =>
    (List.mem_cons.1 hc).elim (fun heq => heq ▸ induction_children h t) (induction_all h ts c)

end

/-- What is below a node is below the nodes that it is below. -/
theorem nodes_subset {n t : Tree} (h : n ∈ t.nodes) : n.nodes ⊆ t.nodes := by
  induction t using induction_children with
  | h t ih =>
    rcases mem_nodes_iff.1 h with rfl | ⟨c, hc, hn⟩
    · exact List.Subset.refl _
    · exact fun m hm => mem_nodes_iff.2 (.inr ⟨c, hc, ih c hc hn hm⟩)

theorem mem_tokens_iff {k t : Tree} : k ∈ t.tokens ↔ k ∈ t.nodes ∧ k.isToken = true :=
  List.mem_filter

/-- A token is what it says of itself. -/
theorem eq_of_isToken {k m : Tree} (hk : k.isToken = true) (hm : m.isToken = true)
    (h : k.label = m.label) : k = m := by
  obtain ⟨label, children⟩ := k
  obtain ⟨label', children'⟩ := m
  obtain rfl : children = [] := List.isEmpty_iff.1 hk
  obtain rfl : children' = [] := List.isEmpty_iff.1 hm
  exact congrArg (node · []) h

/-- Tokens have nothing below them. -/
theorem nodesOfAll_of_isToken {ts : List Tree} (h : ∀ t ∈ ts, t.isToken = true) :
    nodesOfAll ts = ts := by
  induction ts with
  | nil => rfl
  | cons t ts ih =>
    obtain ⟨ht, hts⟩ := List.forall_mem_cons.1 h
    rw [nodesOfAll_cons, nodes_eq, List.isEmpty_iff.1 ht, ih hts]
    rfl

theorem child?_eq_some_iff {t c : Tree} {field : String} :
    t.child? field = some c ↔ c.label.field = some field ∧ ∃ before after,
      t.children = before ++ c :: after ∧ ∀ b ∈ before, b.label.field ≠ some field := by
  rw [child?, List.find?_eq_some_iff_append]
  simp

/-! ### Nodes inside one another -/

/-- Of nodes one behind another none starts before the first. -/
theorem start_le_of_head? {ts : List Tree}
    (hordered : ts.Pairwise fun a b => a.stop.offset ≤ b.start.offset) {a c : Tree}
    (ha : a ∈ ts.head?) (hroom : a.start.offset ≤ a.stop.offset) (hc : c ∈ ts) :
    a.start.offset ≤ c.start.offset := by
  obtain ⟨rest, rfl⟩ := List.head?_eq_some_iff.1 ha
  rcases List.mem_cons.1 hc with rfl | hc
  · exact Nat.le_refl _
  · exact Nat.le_trans hroom ((List.pairwise_cons.1 hordered).1 c hc)

/-- The children of a node stand inside it, one behind another. -/
structure IsNested (n : Tree) : Prop where
  inside : ∀ c ∈ n.children, n.start.offset ≤ c.start.offset ∧ c.stop.offset ≤ n.stop.offset
  ordered : n.children.Pairwise fun a b => a.stop.offset ≤ b.start.offset

namespace IsNested

variable {t : Tree}

theorem of_mem_children (h : ∀ n ∈ t.nodes, n.IsNested) {c : Tree} (hc : c ∈ t.children) :
    ∀ n ∈ c.nodes, n.IsNested := fun n hn =>
  h n (mem_nodes_iff.2 (.inr ⟨c, hc, hn⟩))

/-- What is below a node stands inside it. -/
theorem le_of_mem_nodes (h : ∀ n ∈ t.nodes, n.IsNested) {n : Tree} (hn : n ∈ t.nodes) :
    t.start.offset ≤ n.start.offset ∧ n.stop.offset ≤ t.stop.offset := by
  induction t using induction_children with
  | h t ih =>
    rcases mem_nodes_iff.1 hn with rfl | ⟨c, hc, hn⟩
    · exact ⟨Nat.le_refl _, Nat.le_refl _⟩
    · obtain ⟨hstart, hstop⟩ := (h t (mem_nodes_self t)).inside c hc
      obtain ⟨hstart', hstop'⟩ := ih c hc (of_mem_children h hc) hn
      exact ⟨Nat.le_trans hstart hstart', Nat.le_trans hstop' hstop⟩

/-- **Of two nodes one is below the other, or they stand apart.** -/
theorem below_or_apart (h : ∀ n ∈ t.nodes, n.IsNested) {m n : Tree} (hm : m ∈ t.nodes)
    (hn : n ∈ t.nodes) :
    m ∈ n.nodes ∨ n ∈ m.nodes ∨ m.stop.offset ≤ n.start.offset ∨
      n.stop.offset ≤ m.start.offset := by
  induction t using induction_children with
  | h t ih =>
    rcases mem_nodes_iff.1 hm with rfl | ⟨c, hc, hmc⟩
    · exact .inr (.inl hn)
    rcases mem_nodes_iff.1 hn with rfl | ⟨d, hd, hnd⟩
    · exact .inl hm
    by_cases hcd : c = d
    · subst hcd
      exact ih c hc (of_mem_children h hc) hmc hnd
    · -- below two children, and these stand apart
      have hmc := le_of_mem_nodes (of_mem_children h hc) hmc
      have hnd := le_of_mem_nodes (of_mem_children h hd) hnd
      have hpair : t.children.Pairwise fun a b =>
          a.stop.offset ≤ b.start.offset ∨ b.stop.offset ≤ a.start.offset :=
        (h t (mem_nodes_self t)).ordered.imp .inl
      have hsymm : Std.Symm fun a b : Tree =>
          a.stop.offset ≤ b.start.offset ∨ b.stop.offset ≤ a.start.offset := ⟨fun _ _ => .symm⟩
      rcases hpair.forall hc hd hcd with hle | hle
      · exact .inr (.inr (.inl (by omega)))
      · exact .inr (.inr (.inr (by omega)))

/-- **Of two nodes in the order in which they are met, the second is below the first or behind it.** -/
theorem pairwise_nodes (h : ∀ n ∈ t.nodes, n.IsNested) :
    t.nodes.Pairwise fun a b => b ∈ a.nodes ∨ a.stop.offset ≤ b.start.offset := by
  induction t using induction_children with
  | h t ih =>
    rw [nodes_eq, nodesOfAll_eq_flatMap]
    refine List.pairwise_cons.2 ⟨fun b hb => .inl ?_, List.pairwise_flatMap.2
      ⟨fun c hc => ih c hc (of_mem_children h hc), ?_⟩⟩
    · rw [nodes_eq, nodesOfAll_eq_flatMap]
      exact List.mem_cons_of_mem _ hb
    · refine (h t (mem_nodes_self t)).ordered.imp_of_mem fun {c d} hc hd hcd a ha b hb => .inr ?_
      have ha := (le_of_mem_nodes (of_mem_children h hc) ha).2
      have hb := (le_of_mem_nodes (of_mem_children h hd) hb).1
      omega

end IsNested

/-! ### Tokens -/

theorem tokens_of_isToken {t : Tree} (h : t.isToken = true) : t.tokens = [t] := by
  rw [tokens, nodes_eq, List.isEmpty_iff.1 h, nodesOfAll_nil, List.filter_cons_of_pos h,
    List.filter_nil]

theorem tokens_of_not_isToken {t : Tree} (h : t.isToken = false) :
    t.tokens = t.children.flatMap tokens := by
  rw [tokens, nodes_eq, List.filter_cons_of_neg (by simp [h]), nodesOfAll_eq_flatMap,
    List.filter_flatMap]
  rfl

/-- Tokens stand one behind another. -/
theorem IsNested.pairwise_tokens {t : Tree} (h : ∀ n ∈ t.nodes, n.IsNested) :
    t.tokens.Pairwise fun a b => a.stop.offset ≤ b.start.offset := by
  induction t using induction_children with
  | h t ih =>
    cases htoken : t.isToken with
    | true =>
      rw [tokens_of_isToken htoken]
      exact List.pairwise_singleton _ _
    | false =>
      rw [tokens_of_not_isToken htoken]
      refine List.pairwise_flatMap.2 ⟨fun c hc => ih c hc (of_mem_children h hc), ?_⟩
      refine (h t (mem_nodes_self t)).ordered.imp_of_mem fun {c d} hc hd hcd a ha b hb => ?_
      have ha := (le_of_mem_nodes (of_mem_children h hc) (mem_tokens_iff.1 ha).1).2
      have hb := (le_of_mem_nodes (of_mem_children h hd) (mem_tokens_iff.1 hb).1).1
      omega

theorem tokens_sublist_of_mem_nodes {n t : Tree} (h : n ∈ t.nodes) : n.tokens.Sublist t.tokens := by
  induction t using induction_children with
  | h t ih =>
    rcases mem_nodes_iff.1 h with rfl | ⟨c, hc, hn⟩
    · exact List.Sublist.refl _
    · have ht : t.isToken = false := List.isEmpty_eq_false_iff.2 (List.ne_nil_of_mem hc)
      obtain ⟨front, back, hback⟩ := List.append_of_mem hc
      rw [tokens_of_not_isToken ht, hback, List.flatMap_append, List.flatMap_cons]
      exact ((ih c hc hn).trans (List.sublist_append_left _ _)).trans (List.sublist_append_right _ _)

/-- A node that has nodes below it starts with the first of them and stops with the last. -/
structure IsTight (n : Tree) : Prop where
  first : ∀ c ∈ n.children.head?, c.start = n.start
  last : ∀ c ∈ n.children.getLast?, c.stop = n.stop

namespace IsTight

variable {t : Tree}

/-- It starts with its first token, and stops with its last. -/
theorem exists_tokens (h : ∀ n ∈ t.nodes, n.IsTight) :
    (∃ k ∈ t.tokens.head?, k.start = t.start) ∧ ∃ k ∈ t.tokens.getLast?, k.stop = t.stop := by
  induction t using induction_children with
  | h t ih =>
    cases htoken : t.isToken with
    | true =>
      rw [tokens_of_isToken htoken]
      exact ⟨⟨t, rfl, rfl⟩, t, rfl, rfl⟩
    | false =>
      rw [tokens_of_not_isToken htoken]
      have hne : t.children ≠ [] := List.isEmpty_eq_false_iff.1 htoken
      have htight := h t (mem_nodes_self t)
      have hbelow : ∀ c ∈ t.children, ∀ n ∈ c.nodes, n.IsTight := fun c hc n hn =>
        h n (mem_nodes_iff.2 (.inr ⟨c, hc, hn⟩))
      constructor
      · obtain ⟨c, cs, hcs⟩ := List.exists_cons_of_ne_nil hne
        have hc : c ∈ t.children := hcs ▸ List.mem_cons_self
        obtain ⟨k, hk, hstart⟩ := (ih c hc (hbelow c hc)).1
        refine ⟨k, ?_, hstart.trans (htight.first c (hcs ▸ rfl))⟩
        rw [hcs, List.flatMap_cons, List.head?_append, hk]
        rfl
      · obtain ⟨front, hcs⟩ :=
          List.getLast?_eq_some_iff.1 (List.getLast?_eq_some_getLast hne)
        generalize t.children.getLast hne = c at hcs
        have hc : c ∈ t.children := hcs ▸ by simp
        obtain ⟨k, hk, hstop⟩ := (ih c hc (hbelow c hc)).2
        refine ⟨k, ?_, hstop.trans (htight.last c (by simp [hcs]))⟩
        rw [hcs, List.flatMap_append, List.flatMap_singleton, List.getLast?_append, hk]
        rfl

/-- What has tokens of a node stands inside it. -/
theorem inside_of_tokens (hroom : ∀ k ∈ t.tokens, k.start.offset ≤ k.stop.offset)
    (hordered : t.tokens.Pairwise fun a b => a.stop.offset ≤ b.start.offset)
    (ht : ∀ n ∈ t.nodes, n.IsTight) {c : Tree} (hc : ∀ n ∈ c.nodes, n.IsTight)
    (hsub : c.tokens ⊆ t.tokens) :
    t.start.offset ≤ c.start.offset ∧ c.stop.offset ≤ t.stop.offset := by
  obtain ⟨⟨a, ha, hastart⟩, z, hz, hzstop⟩ := exists_tokens ht
  obtain ⟨⟨k, hk, hkstart⟩, m, hm, hmstop⟩ := exists_tokens hc
  have hkt := hsub (List.mem_of_mem_head? hk)
  have hmt := hsub (List.mem_of_getLast? hm)
  rw [← hastart, ← hkstart, ← hzstop, ← hmstop]
  constructor
  · exact start_le_of_head? hordered ha (hroom a (List.mem_of_mem_head? ha)) hkt
  · obtain ⟨front, hfront⟩ := List.getLast?_eq_some_iff.1 hz
    rw [hfront] at hordered hmt hroom
    rcases List.mem_append.1 hmt with hmt | hmt
    · have hzroom := hroom z (by simp)
      have hle := (List.pairwise_append.1 hordered).2.2 m hmt z List.mem_cons_self
      omega
    · obtain rfl := List.mem_singleton.1 hmt
      exact Nat.le_refl _

/-- **Where tokens stand one behind another, children stand inside their parents,** one behind
another. -/
theorem isNested (h : ∀ n ∈ t.nodes, n.IsTight)
    (hroom : ∀ k ∈ t.tokens, k.start.offset ≤ k.stop.offset)
    (hordered : t.tokens.Pairwise fun a b => a.stop.offset ≤ b.start.offset) :
    ∀ n ∈ t.nodes, n.IsNested := by
  intro n hn
  have hbelow : ∀ {n : Tree}, n ∈ t.nodes → ∀ m ∈ n.nodes, m.IsTight := fun hn m hm =>
    h m (nodes_subset hn hm)
  have hsub := tokens_sublist_of_mem_nodes hn
  have hnodes : ∀ c ∈ n.children, c ∈ t.nodes := fun c hc =>
    nodes_subset hn (mem_nodes_of_mem_children hc)
  refine ⟨fun c hc => inside_of_tokens (fun k hk => hroom k (hsub.subset hk)) (hordered.sublist hsub)
    (hbelow hn) (hbelow (hnodes c hc))
    (tokens_sublist_of_mem_nodes (mem_nodes_of_mem_children hc)).subset, ?_⟩
  cases htoken : n.isToken with
  | true => rw [List.isEmpty_iff.1 htoken]; exact .nil
  | false =>
    rw [tokens_of_not_isToken htoken] at hsub
    refine (List.pairwise_flatMap.1 (hordered.sublist hsub)).2.imp_of_mem fun {a b} ha hb hab => ?_
    obtain ⟨-, k, hk, hstop⟩ := exists_tokens (hbelow (hnodes a ha))
    obtain ⟨⟨m, hm, hstart⟩, -⟩ := exists_tokens (hbelow (hnodes b hb))
    rw [← hstop, ← hstart]
    exact hab k (List.mem_of_getLast? hk) m (List.mem_of_mem_head? hm)

end IsTight

end Tree
end Source
end CompletionPrompt
