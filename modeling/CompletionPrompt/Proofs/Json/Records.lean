import CompletionPrompt.Json.Record
import CompletionPrompt.Proofs.Json.Reading

/-!
# Lists of strings in records

What a record holds as a list of strings or as a string that may be absent is read back, and it
nests no deeper than one array.
-/

namespace CompletionPrompt
namespace Json

theorem readableItems_strings : ∀ ss : List String, ReadableItems (ss.map .string)
  | [] => trivial
  | _ :: ss => ⟨trivial, readableItems_strings ss⟩

theorem itemsNesting_strings : ∀ ss : List String, itemsNesting (ss.map .string) = 0
  | [] => rfl
  | _ :: ss => by rw [List.map_cons, itemsNesting, itemsNesting_strings ss]; rfl

namespace Value

theorem readable_ofStrings (ss : List String) : (ofStrings ss).Readable :=
  readableItems_strings ss

theorem nesting_ofStrings (ss : List String) : (ofStrings ss).nesting = 1 := by
  rw [ofStrings, nesting, itemsNesting_strings]

theorem readable_ofOption (s : Option String) : (ofOption s).Readable := by
  cases s <;> trivial

theorem nesting_ofOption (s : Option String) : (ofOption s).nesting = 0 := by
  cases s <;> rfl

theorem asStrings?_ofStrings (ss : List String) : (ofStrings ss).asStrings? = some ss := by
  show (ss.map Value.string).mapM asString? = some ss
  induction ss with
  | nil => rfl
  | cons s ss ih => simp [List.mapM_cons, ih, asString?]

theorem asOptional?_ofOption (s : Option String) :
    asOptional? asString? (some (ofOption s)) = some s := by
  cases s <;> rfl

end Value
end Json
end CompletionPrompt
