import Mathlib.Data.List.Nodup
import CompletionPrompt.Namespace

/-!
# Bindings made one after the other

Names are bound one after the other (`insertAll`). A name keeps the place of its first binding and
has the value of its last one, so there is one lemma for each: which names there are, in which order
(`names_insert`, `exists_names_insertAll`), and what a name is bound to (`get?_insert`,
`get?_insertAll`). As no name stands twice, the bindings are what the names are looked up to
(`mem_bindings_iff`).

A run starts with the names of its environment, and the difference to these is what it added
(`diff_insertAll_seeded`).
-/

namespace CompletionPrompt
namespace Namespace

variable {ns : Namespace} {name : String} {b : Binding} {bs : List (String × Binding)}

/-- The names that a namespace binds, in order. -/
def names (ns : Namespace) : List String :=
  ns.bindings.map (·.1)

/-- A namespace after more bindings, made one after the other. -/
def insertAll (ns : Namespace) (bs : List (String × Binding)) : Namespace :=
  bs.foldl (fun ns (name, b) => ns.insert name b) ns

theorem insertAll_nil (ns : Namespace) : ns.insertAll [] = ns := rfl

theorem insertAll_cons (ns : Namespace) (name : String) (b : Binding)
    (bs : List (String × Binding)) :
    ns.insertAll ((name, b) :: bs) = (ns.insert name b).insertAll bs := rfl

theorem contains_eq_true_iff : ns.contains name = true ↔ name ∈ ns.names := by
  simp [contains, names]

theorem get?_cons (n : String) (e : String × Binding) (bs : List (String × Binding)) :
    get? ⟨e :: bs⟩ n = if e.1 = n then some e.2 else get? ⟨bs⟩ n := by
  by_cases hn : e.1 = n <;> simp [get?, hn]

/-! ### One binding -/

/-- **A name that is bound again keeps its place,** and any other name goes to the end. -/
theorem names_insert (ns : Namespace) (name : String) (b : Binding) :
    (ns.insert name b).names = if name ∈ ns.names then ns.names else ns.names ++ [name] := by
  obtain ⟨bs⟩ := ns
  simp only [insert, names]
  induction bs with
  | nil => rfl
  | cons e bs ih =>
    obtain ⟨n, c⟩ := e
    by_cases hn : n = name
    · simp [insertInto, hn]
    · have hname : name ≠ n := Ne.symm hn
      simp only [insertInto, beq_iff_eq, hn, if_false, List.map_cons, ih]
      by_cases hmem : name ∈ bs.map (·.1) <;> simp [hmem, hname]

/-- **A name that is bound again has the new value,** and no other name gets another. -/
theorem get?_insert (ns : Namespace) (name : String) (b : Binding) (n : String) :
    (ns.insert name b).get? n = if name = n then some b else ns.get? n := by
  obtain ⟨bs⟩ := ns
  simp only [insert]
  induction bs with
  | nil => exact get?_cons n (name, b) []
  | cons e bs ih =>
    obtain ⟨m, c⟩ := e
    by_cases hm : m = name
    · subst hm
      simp only [insertInto, beq_self_eq_true, if_true, get?_cons]
      split <;> rfl
    · simp only [insertInto, beq_iff_eq, hm, if_false, get?_cons, ih]
      by_cases hmn : m = n
      · simp [hmn, show name ≠ n from fun h => hm (hmn.trans h.symm)]
      · simp [hmn]

theorem nodup_names_insert (hns : ns.names.Nodup) (name : String) (b : Binding) :
    (ns.insert name b).names.Nodup := by
  rw [names_insert]
  split
  · exact hns
  · rename_i hname
    rw [← List.concat_eq_append]
    exact hns.concat hname

/-- Where no name stands twice, the bindings are what the names are looked up to. -/
theorem mem_bindings_iff (hns : ns.names.Nodup) :
    (name, b) ∈ ns.bindings ↔ ns.get? name = some b := by
  obtain ⟨bs⟩ := ns
  induction bs with
  | nil => simp [get?]
  | cons e bs ih =>
    obtain ⟨n, c⟩ := e
    obtain ⟨hfresh, hrest⟩ := List.nodup_cons.1 hns
    rw [get?_cons, List.mem_cons, ih hrest]
    by_cases hn : n = name
    · subst hn
      have habsent : get? ⟨bs⟩ n ≠ some b := fun h =>
        hfresh (List.mem_map.2 ⟨(n, b), (ih hrest).2 h, rfl⟩)
      simp [habsent, eq_comm]
    · simp [hn, Ne.symm hn]

/-! ### Bindings in turn -/

theorem nodup_names_insertAll (hns : ns.names.Nodup) (bs : List (String × Binding)) :
    (ns.insertAll bs).names.Nodup := by
  induction bs generalizing ns with
  | nil => exact hns
  | cons e bs ih => exact ih (nodup_names_insert hns e.1 e.2)

/-- **New names go behind the others,** in the order of their first bindings. -/
theorem exists_names_insertAll (ns : Namespace) (bs : List (String × Binding)) :
    ∃ fresh, (ns.insertAll bs).names = ns.names ++ fresh ∧
      (∀ name, name ∈ fresh ↔ name ∈ bs.map (·.1) ∧ name ∉ ns.names) ∧
      fresh.Pairwise fun m n => (bs.map (·.1)).idxOf m < (bs.map (·.1)).idxOf n := by
  induction bs generalizing ns with
  | nil => exact ⟨[], by simp [insertAll_nil]⟩
  | cons e bs ih =>
    obtain ⟨name, b⟩ := e
    obtain ⟨fresh, hnames, hfresh, horder⟩ := ih (ns.insert name b)
    -- Names other than the first come one place later than in the rest.
    have hlater : ∀ n ≠ name, (name :: bs.map (·.1)).idxOf n = (bs.map (·.1)).idxOf n + 1 :=
      fun n hn => List.idxOf_cons_ne _ (Ne.symm hn)
    have hother : ∀ n ∈ fresh, n ≠ name := by
      rintro n hn rfl
      refine (hfresh n).1 hn |>.2 ?_
      rw [names_insert]
      split <;> simp_all
    have horder : fresh.Pairwise fun m n =>
        (name :: bs.map (·.1)).idxOf m < (name :: bs.map (·.1)).idxOf n := by
      refine horder.imp_of_mem fun {m n} hm hn hlt => ?_
      rw [hlater m (hother m hm), hlater n (hother n hn)]
      omega
    rw [insertAll_cons, hnames]
    by_cases hname : name ∈ ns.names
    · refine ⟨fresh, by rw [names_insert, if_pos hname], fun n => ?_, horder⟩
      rw [hfresh, names_insert, if_pos hname, List.map_cons, List.mem_cons]
      grind
    · refine ⟨name :: fresh, by rw [names_insert, if_neg hname]; simp, fun n => ?_, ?_⟩
      · rw [List.mem_cons, hfresh, names_insert, if_neg hname, List.map_cons]
        grind
      · refine List.pairwise_cons.2 ⟨fun n hn => ?_, horder⟩
        rw [List.map_cons, hlater n (hother n hn), List.idxOf_cons_self]
        omega

theorem get?_insertAll_of_not_mem (hname : name ∉ bs.map (·.1)) :
    (ns.insertAll bs).get? name = ns.get? name := by
  induction bs generalizing ns with
  | nil => rfl
  | cons e bs ih =>
    obtain ⟨hfirst, hrest⟩ := not_or.1 (mt List.mem_cons.2 hname)
    rw [insertAll_cons, ih hrest, get?_insert, if_neg (Ne.symm hfirst)]

/-- A binding is the last of its name when no binding of that name comes after it. -/
def IsLast (bs : List (String × Binding)) (name : String) (b : Binding) : Prop :=
  ∃ before after, bs = before ++ (name, b) :: after ∧ name ∉ after.map (·.1)

/-- **A name has the value of its last binding.** -/
theorem IsLast.get?_insertAll (h : IsLast bs name b) (ns : Namespace) :
    (ns.insertAll bs).get? name = some b := by
  obtain ⟨before, after, rfl, hlast⟩ := h
  rw [insertAll, List.foldl_append, ← insertAll, ← insertAll, insertAll_cons,
    get?_insertAll_of_not_mem hlast, get?_insert, if_pos rfl]

theorem exists_isLast_of_mem (hname : name ∈ bs.map (·.1)) : ∃ b, IsLast bs name b := by
  induction bs with
  | nil => simp at hname
  | cons e bs ih =>
    by_cases hrest : name ∈ bs.map (·.1)
    · obtain ⟨b, before, after, rfl, hlast⟩ := ih hrest
      exact ⟨b, e :: before, after, rfl, hlast⟩
    · obtain rfl : name = e.1 := (List.mem_cons.1 hname).resolve_right hrest
      exact ⟨e.2, [], bs, rfl, hrest⟩

/-! ### The names of an environment -/

theorem names_seeded (e : Environment) : (seeded e).names = Environment.names := by
  simp [names, seeded, ofList, insert, insertInto, empty, Environment.names]

theorem nodup_names_seeded (e : Environment) : (seeded e).names.Nodup := by
  rw [names_seeded]
  decide

theorem contains_seeded (e : Environment) (name : String) :
    (seeded e).contains name = Environment.names.contains name := by
  rw [Bool.eq_iff_iff, contains_eq_true_iff, names_seeded, List.contains_iff_mem]

theorem names_diff (ns before : Namespace) :
    (ns.diff before).names = ns.names.filter (!before.contains ·) := by
  rw [names, names, diff, List.filter_map]
  rfl

/-- The bindings of a namespace whose names are none of an environment's. -/
def added (ns : Namespace) : Namespace :=
  ⟨ns.bindings.filter fun (name, _) => !Environment.names.contains name⟩

/-- What a run adds does not depend on the environment that it ran in. -/
theorem diff_seeded (ns : Namespace) (e : Environment) : ns.diff (seeded e) = ns.added := by
  simp only [diff, added, contains_seeded]

/-- **What a run adds.** In the namespace of an environment, names are bound one after the other,
the environment's own among them and some of them again. No name stands twice, and the environment
keeps its names. The difference to what the run began with are the other names that were bound,
in the order of their first bindings and each with the value of its last. -/
theorem diff_insertAll_seeded (e : Environment) (bs : List (String × Binding)) :
    let ns := (seeded e).insertAll bs
    let new := ns.diff (seeded e)
    ns.names.Nodup ∧
    (∀ name ∈ Environment.names, ns.contains name = true) ∧
    new.names.Nodup ∧
    (∀ name, name ∈ new.names ↔ name ∈ bs.map (·.1) ∧ name ∉ Environment.names) ∧
    new.names.Pairwise (fun m n => (bs.map (·.1)).idxOf m < (bs.map (·.1)).idxOf n) ∧
    ∀ name b, (name, b) ∈ new.bindings ↔ name ∉ Environment.names ∧ IsLast bs name b := by
  intro ns new
  have hnodup : ns.names.Nodup := nodup_names_insertAll (nodup_names_seeded e) bs
  obtain ⟨fresh, hnames, hfresh, horder⟩ := exists_names_insertAll (seeded e) bs
  rw [names_seeded] at hnames hfresh
  have hnew : new.names = fresh := by
    have hold : Environment.names.filter (!(seeded e).contains ·) = [] := by
      simp [contains_seeded]
    have hkept : fresh.filter (!(seeded e).contains ·) = fresh :=
      List.filter_eq_self.2 fun name hname => by simp [contains_seeded, ((hfresh name).1 hname).2]
    rw [names_diff, hnames, List.filter_append, hold, hkept, List.nil_append]
  refine ⟨hnodup, fun name hname => ?_, ?_, hnew ▸ hfresh, hnew ▸ horder, fun name b => ?_⟩
  · rw [contains_eq_true_iff, hnames]
    exact List.mem_append_left fresh hname
  · rw [names_diff]
    exact hnodup.filter _
  · have hmem : (name, b) ∈ new.bindings ↔ name ∉ Environment.names ∧ ns.get? name = some b := by
      rw [← mem_bindings_iff hnodup, and_comm]
      simp [new, diff, contains_seeded]
    rw [hmem]
    refine and_congr_right fun hother => ⟨fun hget => ?_, fun hlast => hlast.get?_insertAll _⟩
    have hbound : name ∈ bs.map (·.1) := by
      have hname : name ∈ new.names := List.mem_map.2 ⟨(name, b), hmem.2 ⟨hother, hget⟩, rfl⟩
      rw [hnew] at hname
      exact ((hfresh name).1 hname).1
    obtain ⟨c, hlast⟩ := exists_isLast_of_mem hbound
    have hsame : some b = some c := hget.symm.trans (hlast.get?_insertAll _)
    exact Option.some.inj hsame ▸ hlast

example (e : Environment) :
    let bs : List (String × Binding) :=
      [("x", .object "int"), ("__doc__", .object "str"), ("y", .type []), ("x", .function [])]
    ((seeded e).insertAll bs).diff (seeded e) = ⟨[("x", .function []), ("y", .type [])]⟩ := rfl

end Namespace
end CompletionPrompt
