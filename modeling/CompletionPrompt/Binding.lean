import CompletionPrompt.Json.Record

/-!
# Bindings

What a name is bound to, as the interpreter reports it: a class with its methods, a function with
its parameters, a module with the bindings in it, or some other object with its type. The members
of a module below the depth of the report are absent.

A binding is written as an object with a `kind`, or as an array that starts with it; inside another
binding the kind may be given by its number.
-/

namespace CompletionPrompt

/-- What a name is bound to. -/
inductive Binding where
  /-- A class, with the names of its callable attributes. -/
  | type (methods : List String)
  /-- A function, with the names of its positional parameters. -/
  | function (params : List String)
  /-- A module or package, with its members. -/
  | module (members : List (String × Binding))
  /-- Anything else, by the name of its type. -/
  | object (typeName : String)
deriving Repr, BEq, Inhabited

/-- The classes that imported names are sorted into. -/
inductive BindingKind where
  | type
  | function
  | other
deriving DecidableEq, Repr

/-- The word for a kind of binding. -/
def BindingKind.name : BindingKind → String
  | .type => "class"
  | .function => "function"
  | .other => "other"

namespace Binding

/-- The class of a binding. -/
def kind : Binding → BindingKind
  | .type _ => .type
  | .function _ => .function
  | .module _ | .object _ => .other

/-- Is the binding a module? -/
def isModule : Binding → Bool
  | .module _ => true
  | _ => false

/-- The name of the type of what is bound. -/
def typeName : Binding → String
  | .type _ => "type"
  | .function _ => "function"
  | .module _ => "module"
  | .object typeName => typeName

mutual

/-- The number of modules that are nested in a binding. -/
def height : Binding → Nat
  | .module members => 1 + maxHeight members
  | .type _ | .function _ | .object _ => 0

/-- The greatest height among bindings. -/
def maxHeight : List (String × Binding) → Nat
  | [] => 0
  | (_, b) :: bs => max b.height (maxHeight bs)

end

mutual

/-- A binding as a record. -/
def toJson : Binding → Json.Value
  | .type methods => .object [("kind", .string "class"), ("methods", .ofStrings methods)]
  | .function params => .object [("kind", .string "function"), ("params", .ofStrings params)]
  | .module members =>
    .object [("kind", .string "namespace"), ("members", .array (pairsToJson members))]
  | .object typeName => .object [("kind", .string "object"), ("type_name", .string typeName)]

/-- Named bindings, each as an array of the name and the binding. -/
def pairsToJson : List (String × Binding) → List Json.Value
  | [] => []
  | (name, b) :: bs => .array [.string name, b.toJson] :: pairsToJson bs

end

/-- The four forms of a binding. -/
inductive Form where
  | type
  | function
  | module
  | object
deriving DecidableEq, Repr

/-- The form that a kind stands for; a number only counts inside another binding. -/
def form? (nested : Bool) : Json.Value → Option Form
  | .string "class" => some .type
  | .string "function" => some .function
  | .string "namespace" => some .module
  | .string "object" => some .object
  | .natural n => if nested then [Form.type, .function, .module, .object][n]? else none
  | _ => none

/-- The name of the field that holds what a form has beside its kind. -/
def Form.field : Form → String
  | .type => "methods"
  | .function => "params"
  | .module => "members"
  | .object => "type_name"

/-- The binding of a form other than a module. -/
def leaf? (form : Form) (v : Json.Value) : Option Binding :=
  match form with
  | .type => v.asStrings?.map .type
  | .function => v.asStrings?.map .function
  | .object => v.asString?.map .object
  | .module => none

mutual

/-- The binding of a record. -/
def ofJson? (nested : Bool) : Json.Value → Option Binding
  | .object fields =>
    match (Json.uniqueField? fields "kind").bind (·.bind (form? nested)) with
    | some .module =>
      if (Json.uniqueField? fields "members").isSome then (membersIn? fields).map .module else none
    | some form => ((Json.uniqueField? fields form.field).bind id).bind (leaf? form)
    | none => none
  | .array [kind, content] =>
    match form? nested kind with
    | some .module => (members? content).map .module
    | some form => leaf? form content
    | none => none
  | _ => none

/-- The members that fields give. -/
def membersIn? : List (String × Json.Value) → Option (List (String × Binding))
  | [] => none
  | (name, v) :: fields => if name == "members" then members? v else membersIn? fields

/-- The members of a module, from an array of pairs. -/
def members? : Json.Value → Option (List (String × Binding))
  | .array items => pairs? items
  | _ => none

/-- Named bindings inside a binding, each from an array of the name and the binding. -/
def pairs? : List Json.Value → Option (List (String × Binding))
  | [] => some []
  | .array [.string name, v] :: items =>
    match ofJson? true v, pairs? items with
    | some b, some bs => some ((name, b) :: bs)
    | _, _ => none
  | _ => none

end

end Binding
end CompletionPrompt
