import CompletionPrompt.Proofs.Declarations.Declared

/-!
# Private names among declared names

A name that starts with an underscore is private. Whether private names are asked for decides about
methods alone: functions and classes are listed in any case (`ofSource_false`). So a listing without
private names is the listing with them less every private name exactly where no function and no
class in it is private (`private_names_left_out_iff`).
-/

namespace CompletionPrompt
namespace Declarations

/-- Does a name start with an underscore? -/
def isPrivate (name : String) : Bool :=
  name.toList.head? == some '_'

/-- Classes with their methods, less the private methods. -/
def withoutPrivateMethods (classes : List (String × List String)) : List (String × List String) :=
  classes.map fun (name, methods) => (name, methods.filter (!isPrivate ·))

/-- What is declared, less every private name: functions, classes with their methods, and methods of
other classes. -/
def withoutPrivate (d : Declarations) : Declarations where
  functions := d.functions.filter (!isPrivate ·)
  classes := withoutPrivateMethods (d.classes.filter (!isPrivate ·.1))

theorem methodsIn_false (indentation : List Char) (rows : List (List Char)) :
    methodsIn indentation false rows =
      (methodsIn indentation true rows).filter fun name => !isPrivate (String.ofList name) := by
  simp [methodsIn, isPrivate, bne]

theorem classesFrom_false (indentation : List Char) (known rows : List (List Char)) :
    classesFrom indentation false known rows =
      (classesFrom indentation true known rows).map fun (name, methods) =>
        (name, methods.filter fun name => !isPrivate (String.ofList name)) := by
  induction rows generalizing known with
  | nil => rfl
  | cons row rows ih =>
    by_cases hne : rows = []
    · rw [hne, classesFrom_singleton, classesFrom_singleton]
      rfl
    rcases known_or_new known row with hknown | ⟨n, hn, hnew⟩
    · rw [classesFrom_cons_of_known hknown, classesFrom_cons_of_known hknown, ih]
    · rw [classesFrom_cons_of_new hne hn hnew, classesFrom_cons_of_new hne hn hnew, ih,
        methodsIn_false, List.map_cons]

/-- **Functions and classes are listed in any case,** and methods less the private ones. -/
theorem ofSource_false (indentation source : String) :
    ofSource indentation false source =
      { ofSource indentation true source with
        classes := withoutPrivateMethods (ofSource indentation true source).classes } := by
  simp [ofSource, classesFrom_false, withoutPrivateMethods, List.filter_map, Function.comp_def]

/-- **Private names are left out uniformly** exactly where no listed function and no listed class is
private: whether or not they are asked for, functions and classes are the same. -/
theorem private_names_left_out_iff (indentation source : String) :
    let all := ofSource indentation true source
    let shown := ofSource indentation false source
    shown = { all with classes := withoutPrivateMethods all.classes } ∧
      (shown = all.withoutPrivate ↔
        (∀ name ∈ all.functions, isPrivate name = false) ∧
          ∀ e ∈ all.classes, isPrivate e.1 = false) := by
  intro all shown
  have hshown : shown = { all with classes := withoutPrivateMethods all.classes } :=
    ofSource_false indentation source
  refine ⟨hshown, ?_⟩
  have hfunctions : all.functions = all.functions.filter (!isPrivate ·) ↔
      ∀ name ∈ all.functions, isPrivate name = false := by
    rw [eq_comm, List.filter_eq_self]
    simp
  have hclasses : withoutPrivateMethods all.classes =
        withoutPrivateMethods (all.classes.filter (!isPrivate ·.1)) ↔
      ∀ e ∈ all.classes, isPrivate e.1 = false := by
    constructor
    · intro hsame
      have hlength := congrArg List.length hsame
      rw [withoutPrivateMethods, withoutPrivateMethods, List.length_map, List.length_map, eq_comm,
        List.length_filter_eq_length_iff] at hlength
      simpa using hlength
    · intro hall
      rw [List.filter_eq_self.2 fun e he => by simp [hall e he]]
  rw [hshown, withoutPrivate, mk.injEq, hfunctions, hclasses]

/-- A private function is listed where private names are not asked for. -/
theorem private_names_not_left_out_of_function :
    let source := "def _f(x):\n    pass\n"
    ofSource "    " false source = ⟨["_f"], []⟩ ∧
      ofSource "    " false source ≠ (ofSource "    " true source).withoutPrivate := by
  decide +kernel

end Declarations
end CompletionPrompt
