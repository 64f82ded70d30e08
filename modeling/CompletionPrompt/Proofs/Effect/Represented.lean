import CompletionPrompt.Proofs.Effect.Unpacking

/-!
# Which bindings are left when modules are unpacked

A level replaces all modules at once, so a module that has no shown members leaves nothing behind
when another one on its level has some. A shown binding of an impact is represented in what
unpacking gives, by itself or by a member, exactly when shown members of it go down to the depth
where unpacking stops (`goesDown`, `represented_iff`). That is all of them where no shown module is
without shown members, and at least one wherever there is one.
-/

namespace CompletionPrompt
namespace Namespace

/-- A binding in a module that positions and names lead to is led to as well. -/
theorem LeadsTo.concat {bs members : List (String × Binding)} {position : List Nat}
    {names : List String} {j : Nat} {name : String} {b : Binding}
    (h : LeadsTo bs position names (.module members)) (hj : members[j]? = some (name, b)) :
    LeadsTo bs (position ++ [j]) (names ++ [name]) b := by
  generalize hc : Binding.module members = c at h
  induction h with
  | here h => exact .inside (hc ▸ h) (.here hj)
  | inside h _ ih => exact .inside h (ih hc)

/-- The way starts at one of the bindings, with its name. -/
theorem LeadsTo.exists_getElem? {bs : List (String × Binding)} {k : Nat} {position : List Nat}
    {names : List String} {c : Binding} (h : LeadsTo bs (k :: position) names c) :
    ∃ name b names', bs[k]? = some (name, b) ∧ names = name :: names' := by
  cases h with
  | here h => exact ⟨_, _, _, h, rfl⟩
  | inside h _ => exact ⟨_, _, _, h, rfl⟩

end Namespace

namespace Effect

open Namespace (Member LeadsTo)

variable {includePrivate : Bool} {impact : Namespace}

/-- Do shown members go down a number of steps from a binding? -/
def goesDown (includePrivate : Bool) : Nat → Binding → Bool
  | 0, _ => true
  | depth + 1, .module members =>
    members.any fun (name, b) => isShown includePrivate name && goesDown includePrivate depth b
  | _ + 1, _ => false

/-- A binding of an impact is represented at a depth when a member is reached there whose position
starts at its place. -/
def Represented (includePrivate : Bool) (impact : Namespace) (depth k : Nat) : Prop :=
  ∃ e ∈ reached includePrivate impact depth, e.position.head? = some k

/-- No shown module of an impact is a dead end: each has a shown member. -/
def NoDeadEnd (includePrivate : Bool) (impact : Namespace) : Prop :=
  ∀ e ∈ impact.members, isShownMember includePrivate e = true →
    ∀ members, e.binding = .module members → ∃ m ∈ members, isShown includePrivate m.1 = true

/-- Shown members go down from a binding along a position of as many steps. -/
theorem goesDown_iff {depth k : Nat} {name : String} {b : Binding} {bs : List (String × Binding)}
    (hk : bs[k]? = some (name, b)) (hshown : isShown includePrivate name = true) :
    goesDown includePrivate depth b = true ↔ ∃ position names c,
      LeadsTo bs (k :: position) names c ∧ names.all (isShown includePrivate) = true ∧
        position.length = depth := by
  induction depth generalizing bs k name b with
  | zero =>
    exact ⟨fun _ => ⟨[], [name], b, .here hk, by simp [hshown], rfl⟩, fun _ => rfl⟩
  | succ depth ih =>
    constructor
    · intro h
      cases b with
      | module members =>
        obtain ⟨⟨name', b'⟩, hmem, h⟩ := List.any_eq_true.1 h
        obtain ⟨hshown', h⟩ := Bool.and_eq_true_iff.1 h
        obtain ⟨j, hj⟩ := List.mem_iff_getElem?.1 hmem
        obtain ⟨position, names, c, hleads, hnames, hlength⟩ := (ih hj hshown').1 h
        exact ⟨j :: position, name :: names, c, .inside hk hleads, by simp [hshown, hnames],
          by simp [hlength]⟩
      | type _ | function _ | object _ => exact absurd h Bool.false_ne_true
    · rintro ⟨position, names, c, hleads, hnames, hlength⟩
      cases hleads with
      | here _ => exact absurd hlength (Nat.succ_ne_zero depth).symm
      | inside h hrest =>
        obtain ⟨rfl, rfl⟩ := Prod.mk.inj (Option.some.inj (hk.symm.trans h))
        obtain ⟨j, position, rfl⟩ := List.exists_cons_of_ne_nil hrest.ne_nil.1
        obtain ⟨name', b', names', hj, rfl⟩ := hrest.exists_getElem?
        rw [List.all_cons, Bool.and_eq_true] at hnames
        have hshown' := List.all_eq_true.1 hnames.2 name' List.mem_cons_self
        have hdown := (ih hj hshown').2 ⟨position, _, c, hrest, hnames.2, Nat.succ.inj hlength⟩
        exact List.any_eq_true.2 ⟨(name', b'), List.mem_of_getElem? hj,
          Bool.and_eq_true_iff.2 ⟨hshown', hdown⟩⟩

theorem represented_iff_goesDown {depth k : Nat} {name : String} {b : Binding}
    (hk : impact.bindings[k]? = some (name, b)) (hshown : isShown includePrivate name = true) :
    Represented includePrivate impact depth k ↔ goesDown includePrivate depth b = true := by
  rw [goesDown_iff hk hshown]
  constructor
  · rintro ⟨⟨position, names, c⟩, he, hhead⟩
    obtain ⟨hleads, hnames, hlength⟩ := mem_reached_iff.1 he
    obtain ⟨rest, rfl⟩ := List.head?_eq_some_iff.1 hhead
    exact ⟨rest, names, c, hleads, hnames, Nat.succ.inj hlength⟩
  · rintro ⟨position, names, c, hleads, hnames, rfl⟩
    exact ⟨⟨k :: position, names, c⟩, mem_reached_iff.2 ⟨hleads, hnames, rfl⟩, rfl⟩

/-- Where there is no dead end, shown members go down from any shown binding to any depth that
unpacking gets to. -/
theorem goesDown_of_not_stops {d depth k : Nat} {name : String} {b : Binding}
    (hopen : NoDeadEnd includePrivate impact)
    (hbefore : ∀ k < d, ¬ Stops (level includePrivate impact) k) (hdepth : depth ≤ d)
    (hk : impact.bindings[k]? = some (name, b)) (hshown : isShown includePrivate name = true) :
    goesDown includePrivate depth b = true := by
  rw [goesDown_iff hk hshown]
  induction depth with
  | zero => exact ⟨[], [name], b, .here hk, by simp [hshown], rfl⟩
  | succ depth ih =>
    obtain ⟨position, names, c, hleads, hnames, hlength⟩ := ih (by omega)
    have hlevel : isOnLevel includePrivate depth ⟨k :: position, names, c⟩ = true :=
      isOnLevel_iff.2 ⟨hnames, .inl (by simp [hlength])⟩
    have hmodule := (not_stops_iff.1 (hbefore depth hdepth)).2.1 _
      (mem_level_iff.2 ⟨⟨k :: position, names, c⟩, hleads, hlevel, rfl⟩)
    obtain ⟨members, rfl⟩ := Binding.exists_of_isModule hmodule
    obtain ⟨⟨name', b'⟩, hmem, hshown'⟩ :=
      hopen ⟨k :: position, names, _⟩ (Namespace.mem_members_iff.2 hleads) hnames members rfl
    obtain ⟨j, hj⟩ := List.mem_iff_getElem?.1 hmem
    exact ⟨position ++ [j], names ++ [name'], b', hleads.concat hj, by simp_all,
      by simp [hlength]⟩

/-- Where a shown binding of the impact is no module, unpacking stops at once. -/
theorem stops_zero_of_leaf {k : Nat} {name : String} {b : Binding}
    (hk : impact.bindings[k]? = some (name, b)) (hshown : isShown includePrivate name = true)
    (hleaf : b.isModule = false) : Stops (level includePrivate impact) 0 := by
  refine .inr (.inl ⟨listed ⟨[k], [name], b⟩, mem_level_iff.2 ⟨_, .here hk, ?_, rfl⟩, hleaf⟩)
  exact isOnLevel_iff.2 ⟨by simp [isShownMember, hshown], .inl rfl⟩

theorem level_zero_eq_nil_iff :
    level includePrivate impact 0 = [] ↔
      ∀ o ∈ impact.bindings, isShown includePrivate o.1 = false := by
  simp [level, unpackLevel]

/-- **When a binding is represented in what unpacking gives.** A shown binding of an impact is, by
itself or by a member, exactly when shown members of it go down to the depth where unpacking stops
first. So only modules may get lost, and none does where no shown module is without shown members.
Something is left whenever a binding is shown. -/
theorem represented_iff (includePrivate : Bool) (impact : Namespace) :
    ∃ d, IsLeast {d | Stops (level includePrivate impact) d} d ∧
      unpack includePrivate impact = (reached includePrivate impact d).map listed ∧
      (∀ k name b, impact.bindings[k]? = some (name, b) → isShown includePrivate name = true →
        (Represented includePrivate impact d k ↔ goesDown includePrivate d b = true) ∧
          (b.isModule = false ∨ NoDeadEnd includePrivate impact →
            Represented includePrivate impact d k)) ∧
      (unpack includePrivate impact = [] ↔
        ∀ o ∈ impact.bindings, isShown includePrivate o.1 = false) := by
  obtain ⟨d, hleast, -, hlevel, hreached⟩ := unpack_eq_reached includePrivate impact
  have hbefore : ∀ k < d, ¬ Stops (level includePrivate impact) k := fun _ => not_stops_of_lt hleast
  have hzero (h : Stops (level includePrivate impact) 0) : d = 0 :=
    Nat.le_zero.1 (hleast.2 h)
  refine ⟨d, hleast, hreached, fun k name b hk hshown => ?_, ?_⟩
  · refine ⟨represented_iff_goesDown hk hshown, fun h => ?_⟩
    rw [represented_iff_goesDown hk hshown]
    rcases h with hleaf | hopen
    · rw [hzero (stops_zero_of_leaf hk hshown hleaf)]
      rfl
    · exact goesDown_of_not_stops hopen hbefore (Nat.le_refl d) hk hshown
  · rw [← level_zero_eq_nil_iff, hlevel]
    constructor
    · intro hempty
      rcases d with _ | d
      · exact hempty
      · exact absurd hempty (not_stops_iff.1 (hbefore d (Nat.lt_succ_self d))).2.2
    · intro hempty
      rw [hzero (.inl hempty), hempty]

/-- Beside a module with a function, a module without members: unpacking stops at the function, so
that the first is represented and the second is not. -/
theorem represented_beside_empty_module :
    let impact : Namespace := ⟨[("a", .module [("f", .function [])]), ("b", .module [])]⟩
    IsLeast {d | Stops (level false impact) d} 1 ∧ Represented false impact 1 0 ∧
      ¬ Represented false impact 1 1 := by
  intro impact
  obtain ⟨d, hleast, -, hrepresented, -⟩ := represented_iff false impact
  have hzero : ¬ Stops (level false impact) 0 := not_stops_iff.2 ⟨nofun, by decide, nofun⟩
  have hone : IsLeast {d | Stops (level false impact) d} 1 := by
    refine ⟨.inr (.inl ⟨("a.f", .function []), List.mem_singleton.2 rfl, rfl⟩), fun k hk => ?_⟩
    exact Nat.pos_of_ne_zero fun h => hzero (h ▸ hk)
  obtain rfl : d = 1 := Nat.le_antisymm (hleast.2 hone.1) (hone.2 hleast.1)
  exact ⟨hone, (hrepresented 0 "a" _ rfl rfl).1.2 rfl,
    fun h => Bool.false_ne_true ((hrepresented 1 "b" _ rfl rfl).1.1 h)⟩

/-- A module without members beside one with a function: unpacking goes on to the function, and the
other module is lost. -/
theorem unpack_loses_empty_module :
    let impact : Namespace := ⟨[("a", .module [("f", .function [])]), ("b", .module [])]⟩
    impact.bindings[1]? = some ("b", .module []) ∧ isShown false "b" = true ∧
      unpack false impact = [("a.f", .function [])] ∧
      ¬ ∃ o ∈ unpack false impact, o.1 = "b" ∨ "b.".toList <+: o.1.toList := by
  intro impact
  have hunpack : unpack false impact = [("a.f", .function [])] := rfl
  refine ⟨rfl, rfl, hunpack, ?_⟩
  rw [hunpack]
  decide

end Effect
end CompletionPrompt
