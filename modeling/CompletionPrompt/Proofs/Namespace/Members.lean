import Mathlib.Data.List.Basic
import CompletionPrompt.Namespace

/-!
# Members of a namespace, at any depth

A module holds bindings, and modules among them hold more. Each binding has a position, the places
on the way to it one by one, so bindings of the same name are told apart; the names on the way are
what it is called by (`LeadsTo`). `Namespace.members` lists all of them depth first: every binding
that positions and names lead to, and no other (`mem_members_iff`), in the order of positions
compared number by number (`pairwise_members`). A member lies no deeper than the height of the
bindings allows (`length_add_height_le`).
-/

namespace CompletionPrompt

theorem Binding.exists_of_isModule : ∀ {b : Binding}, b.isModule = true →
    ∃ members, b = .module members
  | .module members, _ => ⟨members, rfl⟩

namespace Namespace

/-- A binding somewhere in a namespace: the places on the way to it, each among the members of the
module before, the names there, and what is bound. -/
structure Member where
  position : List Nat
  names : List String
  binding : Binding
deriving Repr

/-- Going by positions and names through bindings, and then through the members of one module after
the other, leads to a binding. -/
inductive LeadsTo : List (String × Binding) → List Nat → List String → Binding → Prop where
  | here {bs : List (String × Binding)} {k : Nat} {name : String} {b : Binding} :
      bs[k]? = some (name, b) → LeadsTo bs [k] [name] b
  | inside {bs members : List (String × Binding)} {k : Nat} {name : String} {position : List Nat}
      {names : List String} {b : Binding} :
      bs[k]? = some (name, .module members) → LeadsTo members position names b →
        LeadsTo bs (k :: position) (name :: names) b

/-- A member of a module, as a member of what the module is bound in. -/
def Member.under (k : Nat) (name : String) (e : Member) : Member :=
  ⟨k :: e.position, name :: e.names, e.binding⟩

mutual

/-- The members in a binding, depth first. -/
def membersIn : Binding → List Member
  | .module members => membersFrom 0 members
  | .type _ | .function _ | .object _ => []

/-- The members of bindings that are counted from `k` on, each before those inside it. -/
def membersFrom : Nat → List (String × Binding) → List Member
  | _, [] => []
  | k, (name, b) :: bs =>
    ⟨[k], [name], b⟩ :: ((membersIn b).map (Member.under k name) ++ membersFrom (k + 1) bs)

end

/-- All members of a namespace, depth first. -/
def members (ns : Namespace) : List Member :=
  membersFrom 0 ns.bindings

theorem LeadsTo.ne_nil {bs : List (String × Binding)} {position : List Nat} {names : List String}
    {b : Binding} (h : LeadsTo bs position names b) : position ≠ [] ∧ names ≠ [] := by
  cases h <;> exact ⟨List.cons_ne_nil _ _, List.cons_ne_nil _ _⟩

theorem not_leadsTo_nil {position : List Nat} {names : List String} {b : Binding} :
    ¬ LeadsTo [] position names b := by
  rintro (h | h) <;> simp at h

/-- Of the first of several bindings lead to it or into it the positions that start with zero. -/
theorem leadsTo_cons_zero {name : String} {b c : Binding} {bs : List (String × Binding)}
    {position : List Nat} {names : List String} :
    LeadsTo ((name, b) :: bs) (0 :: position) names c ↔
      (position = [] ∧ names = [name] ∧ c = b) ∨
        ∃ members names', b = .module members ∧ names = name :: names' ∧
          LeadsTo members position names' c := by
  constructor
  · rintro (h | ⟨h, hrest⟩)
    · obtain ⟨rfl, rfl⟩ := Prod.mk.inj (Option.some.inj h)
      exact .inl ⟨rfl, rfl, rfl⟩
    · obtain ⟨rfl, rfl⟩ := Prod.mk.inj (Option.some.inj h)
      exact .inr ⟨_, _, rfl, rfl, hrest⟩
  · rintro (⟨rfl, rfl, rfl⟩ | ⟨members, names', rfl, rfl, hrest⟩)
    · exact .here rfl
    · exact .inside rfl hrest

theorem leadsTo_cons_succ {e : String × Binding} {c : Binding} {bs : List (String × Binding)}
    {k : Nat} {position : List Nat} {names : List String} :
    LeadsTo (e :: bs) ((k + 1) :: position) names c ↔ LeadsTo bs (k :: position) names c := by
  constructor
  · rintro (h | ⟨h, hrest⟩)
    · exact .here h
    · exact .inside h hrest
  · rintro (h | ⟨h, hrest⟩)
    · exact .here h
    · exact .inside h hrest

mutual

theorem mem_membersIn_iff : ∀ {b : Binding} {e : Member},
    e ∈ membersIn b ↔
      ∃ members, b = .module members ∧ LeadsTo members e.position e.names e.binding
  | .module members, e => by
    rw [membersIn, mem_membersFrom_iff]
    constructor
    · rintro ⟨j, rest, hposition, hleads⟩
      rw [Nat.zero_add] at hposition
      exact ⟨members, rfl, hposition ▸ hleads⟩
    · rintro ⟨_, hmembers, hleads⟩
      obtain rfl := Binding.module.inj hmembers
      obtain ⟨j, rest, hposition⟩ := List.exists_cons_of_ne_nil hleads.ne_nil.1
      exact ⟨j, rest, by rw [hposition, Nat.zero_add], hposition ▸ hleads⟩
  | .type _, _ => by simp [membersIn]
  | .function _, _ => by simp [membersIn]
  | .object _, _ => by simp [membersIn]

/-- The members of bindings are what positions and names lead to. -/
theorem mem_membersFrom_iff : ∀ {k : Nat} {bs : List (String × Binding)} {e : Member},
    e ∈ membersFrom k bs ↔
      ∃ j rest, e.position = (k + j) :: rest ∧ LeadsTo bs (j :: rest) e.names e.binding
  | k, [], e => by simp [membersFrom, not_leadsTo_nil]
  | k, (name, b) :: bs, e => by
    rw [membersFrom, List.mem_cons, List.mem_append, List.mem_map, mem_membersFrom_iff]
    constructor
    · rintro (rfl | ⟨e, he, rfl⟩ | ⟨j, rest, hposition, hleads⟩)
      · exact ⟨0, [], rfl, .here rfl⟩
      · obtain ⟨members, rfl, hleads⟩ := mem_membersIn_iff.1 he
        exact ⟨0, e.position, rfl, .inside rfl hleads⟩
      · exact ⟨j + 1, rest, by rw [hposition]; congr 1; omega, leadsTo_cons_succ.2 hleads⟩
    · rintro ⟨j, rest, hposition, hleads⟩
      rcases j with _ | j
      · rcases leadsTo_cons_zero.1 hleads with ⟨rfl, hnames, hbinding⟩ |
          ⟨members, names, rfl, hnames, hleads⟩
        · left
          cases e
          simp_all
        · refine .inr (.inl ⟨⟨rest, names, e.binding⟩, mem_membersIn_iff.2 ⟨_, rfl, hleads⟩, ?_⟩)
          cases e
          simp_all [Member.under]
      · exact .inr (.inr ⟨j, rest, by rw [hposition]; congr 1; omega,
          leadsTo_cons_succ.1 hleads⟩)

end

/-- **The list of members is complete:** it holds what positions and names lead to. -/
theorem mem_members_iff {ns : Namespace} {e : Member} :
    e ∈ ns.members ↔ LeadsTo ns.bindings e.position e.names e.binding := by
  show e ∈ membersIn (.module ns.bindings) ↔ _
  simp [mem_membersIn_iff]

theorem ne_nil_of_mem_membersIn {b : Binding} {e : Member} (he : e ∈ membersIn b) :
    e.position ≠ [] ∧ e.names ≠ [] := by
  obtain ⟨members, -, hleads⟩ := mem_membersIn_iff.1 he
  exact hleads.ne_nil

mutual

theorem pairwise_membersIn : ∀ b : Binding,
    (membersIn b).Pairwise fun e e' => e.position < e'.position
  | .module members => pairwise_membersFrom 0 members
  | .type _ | .function _ | .object _ => .nil

theorem pairwise_membersFrom : ∀ (k : Nat) (bs : List (String × Binding)),
    (membersFrom k bs).Pairwise fun e e' => e.position < e'.position
  | _, [] => .nil
  | k, (name, b) :: bs => by
    have hlater : ∀ e ∈ membersFrom (k + 1) bs, ∀ rest, k :: rest < e.position := by
      intro e he rest
      obtain ⟨j, rest', hposition, -⟩ := mem_membersFrom_iff.1 he
      rw [hposition]
      exact List.cons_lt_cons_iff.2 (.inl (by omega))
    rw [membersFrom, List.pairwise_cons, List.pairwise_append, List.pairwise_map]
    refine ⟨fun e he => ?_, ?_, pairwise_membersFrom (k + 1) bs, fun e he e' he' => ?_⟩
    · rcases List.mem_append.1 he with he | he
      · obtain ⟨inner, hinner, rfl⟩ := List.mem_map.1 he
        obtain ⟨j, rest, hposition⟩ :=
          List.exists_cons_of_ne_nil (ne_nil_of_mem_membersIn hinner).1
        rw [Member.under, hposition]
        exact List.cons_lt_cons_iff.2 (.inr ⟨rfl, List.nil_lt_cons j rest⟩)
      · exact hlater e he []
    · exact (pairwise_membersIn b).imp fun h => List.cons_lt_cons_iff.2 (.inr ⟨rfl, h⟩)
    · obtain ⟨inner, -, rfl⟩ := List.mem_map.1 he
      exact hlater e' he' inner.position

end

/-- **Depth first is the order of positions,** compared number by number, so no position is listed
twice. -/
theorem pairwise_members (ns : Namespace) :
    ns.members.Pairwise fun e e' => e.position < e'.position :=
  pairwise_membersFrom 0 ns.bindings

theorem height_le_maxHeight {bs : List (String × Binding)} {k : Nat} {name : String} {b : Binding}
    (h : bs[k]? = some (name, b)) : b.height ≤ Binding.maxHeight bs := by
  induction bs generalizing k with
  | nil => simp at h
  | cons e bs ih =>
    rw [Binding.maxHeight]
    rcases k with _ | k
    · obtain ⟨rfl, rfl⟩ := Prod.mk.inj (Option.some.inj h)
      exact Nat.le_max_left _ _
    · exact Nat.le_trans (ih h) (Nat.le_max_right _ _)

/-- **A member lies no deeper than the height of bindings allows:** each module on the way to it
and each one nested in it counts. -/
theorem LeadsTo.length_add_height_le {bs : List (String × Binding)} {position : List Nat}
    {names : List String} {b : Binding} (h : LeadsTo bs position names b) :
    position.length + b.height ≤ Binding.maxHeight bs + 1 := by
  induction h with
  | here h =>
    have := height_le_maxHeight h
    simp only [List.length_singleton]
    omega
  | inside h _ ih =>
    have := height_le_maxHeight h
    rw [Binding.height] at this
    simp only [List.length_cons]
    omega

end Namespace
end CompletionPrompt
