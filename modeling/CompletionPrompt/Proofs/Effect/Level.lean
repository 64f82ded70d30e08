import Mathlib.Data.List.Basic
import CompletionPrompt.Effect
import CompletionPrompt.Proofs.Namespace.Members

/-!
# One level of unpacked modules

A level replaces the modules among shown bindings by their shown members a number of times, and
spells the name of a member behind the names of the modules around it. It is a part of the list of
all members of the impact (`level_eq`): the members with shown names that lie that many steps down,
and above them those that are no modules and so stay when modules are replaced. What is listed keeps
its order, which is depth first.
-/

namespace CompletionPrompt
namespace Effect

open Namespace (Member LeadsTo membersIn membersFrom)

variable {includePrivate : Bool} {impact : Namespace}

/-! ### One level -/

/-- The bindings of an impact with modules replaced by their members a number of times. -/
def level (includePrivate : Bool) (impact : Namespace) (depth : Nat) : List (String × Binding) :=
  unpackLevel includePrivate depth "" impact.bindings

/-- Are all names on the way to a member shown? -/
def isShownMember (includePrivate : Bool) (e : Member) : Bool :=
  e.names.all (isShown includePrivate)

/-- Is a member listed on a level? It is when it lies as many steps down, or not as far down but is
no module that could be replaced. -/
def isOnLevel (includePrivate : Bool) (depth : Nat) (e : Member) : Bool :=
  isShownMember includePrivate e &&
    (e.position.length == depth + 1 || (decide (e.position.length ≤ depth) && !e.binding.isModule))

/-- A member as it is listed: the names on the way to it joined by dots, and its binding. -/
def listed (e : Member) : String × Binding :=
  (".".intercalate e.names, e.binding)

section OneBinding

variable {depth k : Nat} {path name : String} {b : Binding} {bs : List (String × Binding)}

theorem unpackLevel_cons_hidden (hhidden : isShown includePrivate name = false) :
    unpackLevel includePrivate depth path ((name, b) :: bs) =
      unpackLevel includePrivate depth path bs := by
  cases depth <;> simp [unpackLevel, hhidden]

theorem unpackLevel_cons_leaf (hshown : isShown includePrivate name = true)
    (hleaf : depth = 0 ∨ b.isModule = false) :
    unpackLevel includePrivate depth path ((name, b) :: bs) =
      (path ++ name, b) :: unpackLevel includePrivate depth path bs := by
  cases depth with
  | zero => simp [unpackLevel, hshown]
  | succ depth => cases b <;> simp_all [unpackLevel, Binding.isModule]

theorem unpackLevel_cons_module (hshown : isShown includePrivate name = true)
    {members : List (String × Binding)} :
    unpackLevel includePrivate (depth + 1) path ((name, .module members) :: bs) =
      unpackLevel includePrivate depth (path ++ name ++ ".") members ++
        unpackLevel includePrivate (depth + 1) path bs := by
  simp [unpackLevel, hshown]

theorem filter_membersFrom_hidden (hhidden : isShown includePrivate name = false) :
    (membersFrom k ((name, b) :: bs)).filter (isOnLevel includePrivate depth) =
      (membersFrom (k + 1) bs).filter (isOnLevel includePrivate depth) := by
  have hinner : ((membersIn b).map (Member.under k name)).filter (isOnLevel includePrivate depth) =
      [] := by
    simp [List.filter_eq_nil_iff, isOnLevel, isShownMember, Member.under, hhidden]
  rw [membersFrom, List.filter_cons_of_neg (by simp [isOnLevel, isShownMember, hhidden]),
    List.filter_append, hinner, List.nil_append]

theorem filter_membersFrom_leaf (hshown : isShown includePrivate name = true)
    (hleaf : depth = 0 ∨ b.isModule = false) :
    (membersFrom k ((name, b) :: bs)).filter (isOnLevel includePrivate depth) =
      ⟨[k], [name], b⟩ :: (membersFrom (k + 1) bs).filter (isOnLevel includePrivate depth) := by
  have hinner : ((membersIn b).map (Member.under k name)).filter (isOnLevel includePrivate depth) =
      [] := by
    rcases hleaf with rfl | hleaf
    · rw [List.filter_eq_nil_iff]
      intro e he
      obtain ⟨inner, hinner, rfl⟩ := List.mem_map.1 he
      have hne : inner.position ≠ [] := (Namespace.ne_nil_of_mem_membersIn hinner).1
      simp [isOnLevel, Member.under, hne]
    · cases b <;> simp_all [membersIn, Binding.isModule]
  have hhead : isOnLevel includePrivate depth ⟨[k], [name], b⟩ = true := by
    rcases hleaf with rfl | hleaf <;> simp [isOnLevel, isShownMember, *]
    omega
  rw [membersFrom, List.filter_cons_of_pos hhead, List.filter_append, hinner, List.nil_append]

theorem filter_membersFrom_module (hshown : isShown includePrivate name = true)
    {members : List (String × Binding)} :
    (membersFrom k ((name, .module members) :: bs)).filter (isOnLevel includePrivate (depth + 1)) =
      ((membersFrom 0 members).filter (isOnLevel includePrivate depth)).map (Member.under k name) ++
        (membersFrom (k + 1) bs).filter (isOnLevel includePrivate (depth + 1)) := by
  have hunder : isOnLevel includePrivate (depth + 1) ∘ Member.under k name =
      isOnLevel includePrivate depth := by
    funext e
    simp [isOnLevel, isShownMember, Member.under, hshown]
  rw [membersFrom, List.filter_cons_of_neg (by simp [isOnLevel, Binding.isModule]),
    List.filter_append, List.filter_map, hunder, membersIn]

end OneBinding

/-- **A level lists members of the impact,** depth first: those with shown names that lie as many
steps down, and above them those that are no modules. -/
theorem unpackLevel_eq (depth : Nat) (path : String) (k : Nat) (bs : List (String × Binding)) :
    unpackLevel includePrivate depth path bs =
      ((membersFrom k bs).filter (isOnLevel includePrivate depth)).map fun e =>
        (path ++ ".".intercalate e.names, e.binding) := by
  -- Inside a module the level is one less; along the bindings it stays.
  induction depth using Nat.strongRecOn generalizing path k bs with
  | ind depth ihDepth =>
    induction bs generalizing k with
    | nil => cases depth <;> rfl
    | cons e bs ih =>
      obtain ⟨name, b⟩ := e
      cases hshown : isShown includePrivate name with
      | false => rw [unpackLevel_cons_hidden hshown, filter_membersFrom_hidden hshown, ih (k + 1)]
      | true =>
        by_cases hleaf : depth = 0 ∨ b.isModule = false
        · rw [unpackLevel_cons_leaf hshown hleaf, filter_membersFrom_leaf hshown hleaf,
            List.map_cons, ih (k + 1), String.intercalate_singleton]
        · obtain ⟨hdepth, hmodule⟩ := not_or.1 hleaf
          obtain ⟨depth, rfl⟩ := Nat.exists_eq_succ_of_ne_zero hdepth
          rw [Bool.not_eq_false] at hmodule
          obtain ⟨members, rfl⟩ := Binding.exists_of_isModule hmodule
          rw [unpackLevel_cons_module hshown, filter_membersFrom_module hshown, List.map_append,
            ih (k + 1), ihDepth depth (Nat.lt_succ_self depth) _ 0, List.map_map]
          congr 1
          refine List.map_congr_left fun e he => ?_
          have hne : e.names ≠ [] :=
            (Namespace.ne_nil_of_mem_membersIn (b := .module members) (List.mem_filter.1 he).1).2
          simp [Member.under, String.intercalate_cons_of_ne_nil hne, String.append_assoc]

theorem level_eq (includePrivate : Bool) (impact : Namespace) (depth : Nat) :
    level includePrivate impact depth =
      (impact.members.filter (isOnLevel includePrivate depth)).map listed := by
  rw [level, unpackLevel_eq depth "" 0, Namespace.members]
  simp only [String.empty_append]
  rfl

/-- What a level holds, by positions and names. -/
theorem mem_level_iff {depth : Nat} {o : String × Binding} :
    o ∈ level includePrivate impact depth ↔
      ∃ e : Member, LeadsTo impact.bindings e.position e.names e.binding ∧
        isOnLevel includePrivate depth e = true ∧ listed e = o := by
  simp [level_eq, Namespace.mem_members_iff, and_assoc]

theorem isOnLevel_iff {depth : Nat} {e : Member} :
    isOnLevel includePrivate depth e = true ↔
      isShownMember includePrivate e = true ∧ (e.position.length = depth + 1 ∨
        e.position.length ≤ depth ∧ e.binding.isModule = false) := by
  simp [isOnLevel]

end Effect
end CompletionPrompt
