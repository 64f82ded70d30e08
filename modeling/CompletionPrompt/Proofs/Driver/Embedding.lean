import CompletionPrompt.Driver.Program
import CompletionPrompt.Proofs.Namespace.Record
import CompletionPrompt.Text.Search

/-!
# The request in the driver program

The driver program is a template with a placeholder, and the request is written in the place of the
placeholder as one string literal. The request's own text may hold anything, the placeholder
included. It is JSON and has no control characters, so the literal around it needs two escapes only,
`\"` and `\\`, which Python and JSON read alike (`Plain`). The literal gives back the text, and the
text gives back the request (`program_carries_request`).
-/

namespace CompletionPrompt

/-- A needle is first found behind a text that does not have its first character. -/
theorem Text.cut?_append {c : Char} (needle : List Char) {before : List Char} (hc : c ∉ before)
    (after : List Char) :
    cut? (c :: needle) (before ++ c :: needle ++ after) = some (before, after) := by
  induction before with
  | nil => simp [cut?]
  | cons b before ih =>
    obtain ⟨hb, hbefore⟩ := not_or.1 (mt List.mem_cons.2 hc)
    rw [List.cons_append, List.cons_append, cut?, if_neg (by simp [hb]), ih hbefore]
    rfl

namespace Request

/-- The names of a request's parts in a record. -/
def fieldNames : List String :=
  ["statement", "filename", "search_dirs", "environment", "depth"]

/-- The request of a record. -/
def ofJson? (v : Json.Value) : Option Request := do
  match ← Json.fields? fieldNames v with
  | [statement, filename, searchDirs, environment, depth] =>
    let statement ← Json.required? Json.Value.asString? statement
    let filename ← Json.required? Json.Value.asString? filename
    let searchDirs ← Json.required? Json.Value.asStrings? searchDirs
    let environment ← Json.required? Environment.ofJson? environment
    let depth ← Json.required? Json.Value.asCount? depth
    return { statement, filename := ⟨filename⟩, searchDirs := searchDirs.map Path.mk, environment,
             depth }
  | _ => none

/-- A request is read back from its record. -/
theorem ofJson?_toJson {r : Request} (hdepth : r.depth < UInt64.size) :
    ofJson? r.toJson = some r := by
  have hfields : Json.fields? fieldNames r.toJson =
      some [some (.string r.statement), some (.string r.filename.text),
        some (.ofStrings (r.searchDirs.map (·.text))), some r.environment.toJson,
        some (.natural r.depth)] := by
    simp [toJson, fieldNames, Json.fields?, Json.fieldsOrMissing?, Json.uniqueField?]
  have hdirs : r.searchDirs.map (Path.mk ∘ (·.text)) = r.searchDirs := List.map_id _
  simp [ofJson?, hfields, Json.required?, Json.Value.asString?, Json.Value.asStrings?_ofStrings,
    Environment.ofJson?_toJson, Json.Value.asCount?, hdepth, hdirs]

theorem readable_toJson {r : Request} (hdepth : r.depth < UInt64.size) : r.toJson.Readable := by
  have hdepth : r.depth < Json.binary64Overflow :=
    hdepth.trans (by decide +kernel)
  simp [toJson, Environment.toJson, Environment.fieldNames, Json.Value.Readable,
    Json.ReadableFields, Json.Value.readable_ofStrings, Json.Value.readable_ofOption, hdepth]

/-- The directories and the environment of a request are the only parts that nest. -/
theorem nesting_toJson (r : Request) : r.toJson.nesting = 2 := by
  simp [toJson, Environment.toJson, Environment.fieldNames, Json.Value.nesting,
    Json.fieldsNesting, Json.Value.nesting_ofStrings, Json.Value.nesting_ofOption]

/-- A request is read back from its text. -/
theorem read?_compact {r : Request} (hdepth : r.depth < UInt64.size) :
    (Json.read? r.toJson.compact).bind ofJson? = some r := by
  rw [← Json.written_compact,
    Json.read?_written .compact (readable_toJson hdepth) (by rw [nesting_toJson]; decide),
    Option.bind_some, ofJson?_toJson hdepth]

end Request

namespace Driver

/-- What stands in the template where the request goes. -/
def placeholder : List Char :=
  "__REQUEST_JSON__".toList

/-- The driver program without a request. -/
def template : List Char :=
  textBefore.toList ++ placeholder ++ textAfter.toList

/-- A text in a string literal with the escapes `\"` and `\\` alone, and without control
characters. -/
inductive Plain : List Char → List Char → Prop where
  | nil : Plain [] []
  | char {body text : List Char} {c : Char} (hcontrol : 0x20 ≤ c.toNat) (hquote : c ≠ '"')
    (hslash : c ≠ '\\') (rest : Plain body text) : Plain (c :: body) (c :: text)
  | escape {body text : List Char} {c : Char} (hc : c = '"' ∨ c = '\\')
    (rest : Plain body text) : Plain ('\\' :: c :: body) (c :: text)

namespace Plain

/-- There is one way to read a plain literal. -/
theorem unique {body text other : List Char} (h : Plain body text) (h' : Plain body other) :
    text = other := by
  induction h generalizing other with
  | nil => cases h'; rfl
  | char hcontrol hquote hslash rest ih =>
    cases h' with
    | char _ _ _ rest' => rw [ih rest']
    | escape => exact absurd rfl hslash
  | escape hc rest ih =>
    cases h' with
    | char _ _ hslash => exact absurd rfl hslash
    | escape _ rest' => rw [ih rest']

/-- A text without control characters has a plain literal. -/
theorem flatMap_escapeChar {text : List Char} (h : Json.Printable text) :
    Plain (text.flatMap Json.escapeChar) text := by
  induction text with
  | nil => exact nil
  | cons c text ih =>
    obtain ⟨hc, htext⟩ := List.forall_mem_cons.1 h
    by_cases hmark : c = '"' ∨ c = '\\'
    · have hescape : Json.escapeChar c = ['\\', c] := by rcases hmark with rfl | rfl <;> rfl
      rw [List.flatMap_cons, hescape]
      exact escape hmark (ih htext)
    · obtain ⟨hquote, hslash⟩ := not_or.1 hmark
      have hescape : Json.escapeChar c = [c] := by
        have hcontrol : ∀ e : Char, e.toNat < 0x20 → c ≠ e := by
          rintro e he rfl
          omega
        simp [Json.escapeChar, hquote, hslash, hcontrol '\n' (by decide), hcontrol '\r' (by decide),
          hcontrol '\t' (by decide), show c.toNat ≠ 8 by omega, show c.toNat ≠ 12 by omega, hc]
      rw [List.flatMap_cons, hescape]
      exact char hc hquote hslash (ih htext)

end Plain

/-- The placeholder is found behind the text before it, which has no underscore. -/
theorem cut?_template :
    Text.cut? placeholder template = some (textBefore.toList, textAfter.toList) :=
  Text.cut?_append "_REQUEST_JSON__".toList (by decide +kernel) _

/-- The program is the template with the literal in the place of the placeholder. -/
theorem program_eq_replaceFirst (r : Request) :
    (program r).toList = Text.replaceFirst placeholder (requestLiteral r) template := by
  rw [Text.replaceFirst, cut?_template]
  simp [program]

/-- A text is read back from its literal. -/
theorem read?_literal (text : List Char) :
    Json.read? (Json.literal text) = some (.string (String.ofList text)) := by
  have hread := Json.read?_written .compact (v := .string (String.ofList text)) trivial
    (Nat.zero_le _)
  rwa [Json.written_compact, Json.Value.compact, String.toList_ofList] at hread

/-- **The program carries its request.** Whatever the request's texts hold, the program is the
template with one string literal in the place of its first placeholder. The literal has no control
characters and no other escapes than `\"` and `\\`, so there is one way to read it, and what is read
is a JSON text that gives back every part of the request. -/
theorem program_carries_request {r : Request} (hdepth : r.depth < UInt64.size) :
    Text.cut? placeholder template = some (textBefore.toList, textAfter.toList) ∧
      (program r).toList = Text.replaceFirst placeholder (requestLiteral r) template ∧
      (program r).toList = textBefore.toList ++ requestLiteral r ++ textAfter.toList ∧
      ∃ body, requestLiteral r = '"' :: body ++ ['"'] ∧
        (∀ c ∈ body, 0x20 ≤ c.toNat) ∧
        (∀ text, Plain body text ↔ text = r.toJson.compact) ∧
        Json.read? (requestLiteral r) = some (.string (String.ofList r.toJson.compact)) ∧
        (Json.read? r.toJson.compact).bind Request.ofJson? = some r := by
  have hprintable : Json.Printable r.toJson.compact := by
    have := Json.printable_written .compact r.toJson (Request.readable_toJson hdepth)
    rwa [Json.written_compact] at this
  have hplain := Plain.flatMap_escapeChar hprintable
  refine ⟨cut?_template, program_eq_replaceFirst r, by simp [program],
    r.toJson.compact.flatMap Json.escapeChar, rfl, ?_, ?_, read?_literal _,
    Request.read?_compact hdepth⟩
  · exact Json.Printable.flatMap fun c _ => .of_escaped (Json.escaped_escapeChar c)
  · exact fun text => ⟨fun h => h.unique hplain, fun h => h ▸ hplain⟩

/-- A request whose statement holds quotes, a backslash, line feeds, a control character, a
character above U+FFFF and the placeholder itself. -/
theorem program_carries_awkward_request :
    let r : Request :=
      { statement := "from p\\q import \"a\"\n\x00\t# 🦀 __REQUEST_JSON__\n"
        filename := ⟨"/p/ü.py"⟩
        searchDirs := [⟨"/p"⟩, ⟨"/"⟩]
        environment := { name := "p", doc := none, package := some "\x1b'", file := "/p/ü.py" }
        depth := 2 }
    r.depth < UInt64.size ∧
      (program r).toList = textBefore.toList ++ requestLiteral r ++ textAfter.toList ∧
      (Json.read? r.toJson.compact).bind Request.ofJson? = some r := by
  intro r
  have hdepth : r.depth < UInt64.size := by decide
  obtain ⟨-, -, hprogram, body, -, -, -, -, hread⟩ := program_carries_request hdepth
  exact ⟨hdepth, hprogram, hread⟩

end Driver
end CompletionPrompt
