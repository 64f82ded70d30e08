import CompletionPrompt.Namespace
import CompletionPrompt.Proofs.Json.Records

/-!
# Namespaces, environments and their records

A namespace is read back from its record, with the order of its bindings and with names that are
bound twice (`Namespace.ofJson?_toJson`). The record holds strings alone, so it is readable whatever
the namespace is; how deep it nests grows with the modules in it. An environment is read back too
(`Environment.ofJson?_toJson`).
-/

namespace CompletionPrompt

namespace Binding

mutual

/-- A binding is read back from its record. -/
theorem ofJson?_toJson (nested : Bool) : ∀ b : Binding, ofJson? nested b.toJson = some b
  | .type methods => by
    simp [toJson, ofJson?, Json.uniqueField?, form?, Form.field, leaf?,
      Json.Value.asStrings?_ofStrings]
  | .function params => by
    simp [toJson, ofJson?, Json.uniqueField?, form?, Form.field, leaf?,
      Json.Value.asStrings?_ofStrings]
  | .module members => by
    simp [toJson, ofJson?, Json.uniqueField?, form?, membersIn?, members?,
      pairs?_pairsToJson members]
  | .object typeName => by
    simp [toJson, ofJson?, Json.uniqueField?, form?, Form.field, leaf?, Json.Value.asString?]

theorem pairs?_pairsToJson : ∀ bs : List (String × Binding), pairs? (pairsToJson bs) = some bs
  | [] => rfl
  | (name, b) :: bs => by
    rw [pairsToJson, pairs?, ofJson?_toJson true b, pairs?_pairsToJson bs]

end

mutual

theorem readable_toJson : ∀ b : Binding, b.toJson.Readable
  | .type methods => by
    simp [toJson, Json.Value.Readable, Json.ReadableFields, Json.Value.readable_ofStrings]
  | .function params => by
    simp [toJson, Json.Value.Readable, Json.ReadableFields, Json.Value.readable_ofStrings]
  | .module members => by
    simp [toJson, Json.Value.Readable, Json.ReadableFields, readableItems_pairsToJson members]
  | .object typeName => by
    simp [toJson, Json.Value.Readable, Json.ReadableFields]

theorem readableItems_pairsToJson :
    ∀ bs : List (String × Binding), Json.ReadableItems (pairsToJson bs)
  | [] => trivial
  | (name, b) :: bs => by
    simp [pairsToJson, Json.ReadableItems, Json.Value.Readable, readable_toJson b,
      readableItems_pairsToJson bs]

end
end Binding

namespace Namespace

theorem mapM_pair?_pairsToJson (bs : List (String × Binding)) :
    (Binding.pairsToJson bs).mapM pair? = some bs := by
  induction bs with
  | nil => rfl
  | cons b bs ih =>
    obtain ⟨name, b⟩ := b
    simp [Binding.pairsToJson, List.mapM_cons, pair?, Binding.ofJson?_toJson, ih]

/-- **A namespace is read back from its record.** -/
theorem ofJson?_toJson (ns : Namespace) : ofJson? ns.toJson = some ns := by
  simp [ofJson?, toJson, Json.Value.asArray?, mapM_pair?_pairsToJson]

theorem readable_toJson (ns : Namespace) : ns.toJson.Readable :=
  Binding.readableItems_pairsToJson ns.bindings

/-- A namespace is read back from its text, in either style, when it nests no deeper than the reader
allows. -/
theorem read?_written (style : Json.Style) {ns : Namespace}
    (h : ns.toJson.nesting ≤ Json.Reading.maxNesting) :
    (Json.read? (ns.toJson.written style)).bind ofJson? = some ns := by
  rw [Json.read?_written style ns.readable_toJson h, Option.bind_some, ofJson?_toJson]

end Namespace

/-- An environment is read back from its record. -/
theorem Environment.ofJson?_toJson (e : Environment) : ofJson? e.toJson = some e := by
  have hfields : Json.fields? fieldNames e.toJson =
      some [some (.string e.name), some (.ofOption e.doc), some (.ofOption e.package),
        some (.string e.file)] := by
    simp [toJson, fieldNames, Json.fields?, Json.fieldsOrMissing?, Json.uniqueField?]
  simp [ofJson?, hfields, Json.Value.asOptional?_ofOption, Json.required?, Json.Value.asString?]

end CompletionPrompt
