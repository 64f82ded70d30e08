import Mathlib.Order.Nat
import CompletionPrompt.Proofs.Effect.Level

/-!
# Unpacking modules

Unpacking goes down level by level and stops at the first level that is empty, holds something other
than a module, or has nothing below it (`Stops`). A member on a level of modules only has a module
around it for each step down and is one itself, so such a level is above the bound that the height
of the bindings sets (`lt_maxHeight`), and that bound never ends the descent
(`unpack_eq_first_stop`).

On all levels before the last there were modules only, and these were replaced. So what is left are
the shown members at one depth, all of them, in the order of the impact (`unpack_eq_reached`,
`unpack_lists_members`).
-/

namespace CompletionPrompt
namespace Effect

open Namespace (Member LeadsTo)

variable {includePrivate : Bool} {impact : Namespace}

/-- Unpacking stops at a level that is empty or holds something other than a module, or below which
there is nothing. -/
def Stops (level : Nat → List (String × Binding)) (depth : Nat) : Prop :=
  level depth = [] ∨ (∃ o ∈ level depth, o.2.isModule = false) ∨ level (depth + 1) = []

theorem not_stops_iff {level : Nat → List (String × Binding)} {depth : Nat} :
    ¬ Stops level depth ↔ level depth ≠ [] ∧ (∀ o ∈ level depth, o.2.isModule = true) ∧
      level (depth + 1) ≠ [] := by
  simp [Stops]

theorem not_stops_of_lt {level : Nat → List (String × Binding)} {d k : Nat}
    (hleast : IsLeast {d | Stops level d} d) (hk : k < d) : ¬ Stops level k :=
  fun hstops => absurd (hleast.2 hstops) (Nat.not_le_of_lt hk)

/-- **One step of the descent:** it ends where unpacking stops, and else goes one level down. -/
theorem deepen_of_stops {level : Nat → List (String × Binding)} {depth : Nat} (more : Nat)
    (h : Stops level depth) : deepen level more depth = level depth := by
  cases more with
  | zero => rfl
  | succ more =>
    rw [deepen]
    rcases h with hempty | ⟨o, ho, hleaf⟩ | hbelow
    · simp [hempty]
    · have hall : (level depth).all (·.2.isModule) = false :=
        List.all_eq_false.2 ⟨o, ho, by simp [hleaf]⟩
      simp [hall]
    · simp [hbelow]

theorem deepen_of_not_stops {level : Nat → List (String × Binding)} {depth : Nat} (more : Nat)
    (h : ¬ Stops level depth) :
    deepen level (more + 1) depth = deepen level more (depth + 1) := by
  obtain ⟨hne, hall, hbelow⟩ := not_stops_iff.1 h
  have hall : (level depth).all (·.2.isModule) = true := List.all_eq_true.2 hall
  rw [deepen]
  simp [hne, hall, hbelow]

/-- **The whole descent** ends at the first level where it stops, if the bound lets it get there. -/
theorem deepen_eq_level {level : Nat → List (String × Binding)} {d depth more : Nat}
    (hfrom : depth ≤ d) (hbound : d ≤ depth + more) (hstops : Stops level d)
    (hbefore : ∀ k, depth ≤ k → k < d → ¬ Stops level k) : deepen level more depth = level d := by
  induction more generalizing depth with
  | zero =>
    obtain rfl : d = depth := by omega
    rfl
  | succ more ih =>
    rcases Nat.eq_or_lt_of_le hfrom with rfl | hlt
    · exact deepen_of_stops _ hstops
    · rw [deepen_of_not_stops more (hbefore depth (Nat.le_refl depth) hlt)]
      exact ih hlt (by omega) fun k hk => hbefore k (by omega)

/-- **A level of modules only is above the bound:** the modules around a member, and the member
itself, all count for the height of a binding of the impact. -/
theorem lt_maxHeight {depth : Nat} (hne : level includePrivate impact depth ≠ [])
    (hall : ∀ o ∈ level includePrivate impact depth, o.2.isModule = true) :
    depth < Binding.maxHeight impact.bindings := by
  obtain ⟨o, ho⟩ := List.exists_mem_of_ne_nil _ hne
  obtain ⟨e, hleads, hlevel, rfl⟩ := mem_level_iff.1 ho
  have hmodule : e.binding.isModule = true := hall _ ho
  have hheight := hleads.length_add_height_le
  have hlength : e.position.length = depth + 1 := by
    rcases (isOnLevel_iff.1 hlevel).2 with h | ⟨-, h⟩
    · exact h
    · exact absurd (h.symm.trans hmodule) Bool.false_ne_true
  obtain ⟨members, hmembers⟩ := Binding.exists_of_isModule hmodule
  rw [hmembers, hlength, Binding.height] at hheight
  omega

theorem stops_maxHeight (includePrivate : Bool) (impact : Namespace) :
    Stops (level includePrivate impact) (Binding.maxHeight impact.bindings) := by
  by_contra h
  obtain ⟨hne, hall, -⟩ := not_stops_iff.1 h
  exact Nat.lt_irrefl _ (lt_maxHeight hne hall)

/-- There is a first level where unpacking stops, no deeper than the highest binding. -/
theorem exists_isLeast_stops (includePrivate : Bool) (impact : Namespace) :
    ∃ d, IsLeast {d | Stops (level includePrivate impact) d} d ∧
      d ≤ Binding.maxHeight impact.bindings := by
  classical
  have h : ∃ d, Stops (level includePrivate impact) d := ⟨_, stops_maxHeight includePrivate impact⟩
  exact ⟨Nat.find h, Nat.isLeast_find h, Nat.find_min' h (stops_maxHeight includePrivate impact)⟩

/-- The members with shown names that lie a number of steps down. -/
def reached (includePrivate : Bool) (impact : Namespace) (depth : Nat) : List Member :=
  impact.members.filter fun e => isShownMember includePrivate e && e.position.length == depth + 1

theorem mem_reached_iff {depth : Nat} {e : Member} :
    e ∈ reached includePrivate impact depth ↔
      LeadsTo impact.bindings e.position e.names e.binding ∧
        isShownMember includePrivate e = true ∧ e.position.length = depth + 1 := by
  simp [reached, Namespace.mem_members_iff]

/-- **No member above the level where unpacking stops first is left,** as all of these are
modules. -/
theorem level_eq_reached {d : Nat}
    (hbefore : ∀ k < d, ¬ Stops (level includePrivate impact) k) :
    level includePrivate impact d = (reached includePrivate impact d).map listed := by
  rw [level_eq, reached]
  congr 1
  refine List.filter_congr fun e he => ?_
  have hleads := Namespace.mem_members_iff.1 he
  have hlength := List.length_pos_iff.2 hleads.ne_nil.1
  rw [Bool.eq_iff_iff, isOnLevel_iff, Bool.and_eq_true, beq_iff_eq]
  refine and_congr_right fun hshown => or_iff_left ?_
  rintro ⟨habove, hleaf⟩
  refine hbefore (e.position.length - 1) (by omega) (.inr (.inl ⟨listed e, ?_, hleaf⟩))
  exact mem_level_iff.2 ⟨e, hleads, isOnLevel_iff.2 ⟨hshown, .inl (by omega)⟩, rfl⟩

/-- Unpacking gives the first level where it stops, and would do so with any higher bound. -/
theorem deepen_eq_level_of_isLeast {d more : Nat}
    (hleast : IsLeast {d | Stops (level includePrivate impact) d} d) (hmore : d ≤ more) :
    deepen (level includePrivate impact) more 0 = level includePrivate impact d :=
  deepen_eq_level (Nat.zero_le d) (by omega) hleast.1 fun _ _ => not_stops_of_lt hleast

/-- What unpacking gives are the members at the depth where it stops first. -/
theorem unpack_eq_reached (includePrivate : Bool) (impact : Namespace) :
    ∃ d, IsLeast {d | Stops (level includePrivate impact) d} d ∧
      d ≤ Binding.maxHeight impact.bindings ∧
      unpack includePrivate impact = level includePrivate impact d ∧
      unpack includePrivate impact = (reached includePrivate impact d).map listed := by
  obtain ⟨d, hleast, hd⟩ := exists_isLeast_stops includePrivate impact
  have hunpack : unpack includePrivate impact = level includePrivate impact d :=
    deepen_eq_level_of_isLeast hleast hd
  exact ⟨d, hleast, hd, hunpack, hunpack.trans (level_eq_reached fun _ => not_stops_of_lt hleast)⟩

/-- **Unpacking stops for its own reasons and at one depth.** It gives the first level that is
empty, holds something other than a module, or has nothing below it. There is one no deeper than the
highest binding, and a level of modules alone always leaves room below that bound, so unpacking
would end the same with any higher one. All that is listed lies as many steps below the bindings of
the impact as the level is deep. -/
theorem unpack_eq_first_stop (includePrivate : Bool) (impact : Namespace) :
    ∃ d, IsLeast {d | Stops (level includePrivate impact) d} d ∧
      d ≤ Binding.maxHeight impact.bindings ∧
      unpack includePrivate impact = level includePrivate impact d ∧
      (∀ k, level includePrivate impact k ≠ [] →
        (∀ o ∈ level includePrivate impact k, o.2.isModule = true) →
          k < Binding.maxHeight impact.bindings) ∧
      (∀ more, Binding.maxHeight impact.bindings ≤ more →
        deepen (level includePrivate impact) more 0 = unpack includePrivate impact) ∧
      ∀ o ∈ unpack includePrivate impact, ∃ position names,
        LeadsTo impact.bindings position names o.2 ∧ o.1 = ".".intercalate names ∧
          position.length = d + 1 := by
  obtain ⟨d, hleast, hd, hunpack, hreached⟩ := unpack_eq_reached includePrivate impact
  refine ⟨d, hleast, hd, hunpack, fun k => lt_maxHeight, fun more hmore => ?_, fun o ho => ?_⟩
  · rw [hunpack, deepen_eq_level_of_isLeast hleast (hd.trans hmore)]
  · rw [hreached] at ho
    obtain ⟨e, he, rfl⟩ := List.mem_map.1 ho
    obtain ⟨hleads, -, hlength⟩ := mem_reached_iff.1 he
    exact ⟨e.position, e.names, hleads, rfl, hlength⟩

theorem isShownMember_iff {e : Member} :
    isShownMember includePrivate e = true ↔
      (includePrivate = false → ∀ name ∈ e.names, name.toList.head? ≠ some '_') := by
  cases includePrivate <;> simp [isShownMember, isShown]

/-- **Unpacked names are real and public.** What is listed are members of the impact, depth first
and none of them twice: each is called by the names on the way to it, joined by dots, and is bound
to what these lead to. Private names are on the way only if they are asked for. Of the members at
the depth where unpacking stops none is left out. -/
theorem unpack_lists_members (includePrivate : Bool) (impact : Namespace) :
    ∃ (d : Nat) (found : List Member),
      unpack includePrivate impact =
        found.map (fun e => (".".intercalate e.names, e.binding)) ∧
      found.Sublist impact.members ∧
      found.Pairwise (fun e e' => e.position < e'.position) ∧
      ∀ e, e ∈ found ↔
        LeadsTo impact.bindings e.position e.names e.binding ∧ e.position.length = d + 1 ∧
          (includePrivate = false → ∀ name ∈ e.names, name.toList.head? ≠ some '_') := by
  obtain ⟨d, -, -, -, hreached⟩ := unpack_eq_reached includePrivate impact
  have hsublist : (reached includePrivate impact d).Sublist impact.members := List.filter_sublist
  refine ⟨d, reached includePrivate impact d, hreached, hsublist,
    (Namespace.pairwise_members impact).sublist hsublist, fun e => ?_⟩
  rw [mem_reached_iff, isShownMember_iff, and_comm (a := e.position.length = d + 1)]

/-- A name that is bound twice is listed twice, each time with its own binding. -/
example : unpack false ⟨[("a.b", .module [("x", .object "int"), ("_y", .object "str"),
    ("x", .object "str")]), ("", .module [("x", .function [])])]⟩ =
      [("a.b.x", .object "int"), ("a.b.x", .object "str"), (".x", .function [])] := rfl

end Effect
end CompletionPrompt
