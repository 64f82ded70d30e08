import CompletionPrompt.Import.Resolution
import CompletionPrompt.Proofs.Path.Components

/-!
# The path of a module

The dots of a module's name stand between the names on its path, and the file has the extension of
source files. Names that are empty, as between two dots, are passed over, and a module without names
has the empty path (`modulePath_eq`). The names are put together one after the other; what they
spell so far may end in a slash, which an empty name leaves behind (`Path.Spelled`).
-/

namespace CompletionPrompt

namespace Path

/-- A name without a dot is all stem. -/
theorem stemOf_of_not_mem {name : List Char} (h : '.' ∉ name) : stemOf name = name := by
  have hnone : name.reverse.dropWhile (· != '.') = [] := by
    rw [← List.append_nil name.reverse, List.dropWhile_append_of_pos]
    · rfl
    · intro c hc
      rw [bne_iff_ne]
      rintro rfl
      exact h (List.mem_reverse.1 hc)
  simp [stemOf, hnone]

/-- A path is spelled by names: they stand between its slashes, and nothing or a slash follows the
last of them. -/
inductive Spelled : Path → List (List Char) → Prop
  | empty : Spelled empty []
  | names {p : Path} (front : List (List Char)) (name slashes : List Char) (hname : IsName name)
      (hslashes : slashes = [] ∨ slashes = ['/'])
      (hchars : p.chars = ['/'].intercalate (front ++ [name]) ++ slashes)
      (hlast : p.marks.getLast? =
        some ⟨.normal (String.ofList name), (['/'].intercalate (front ++ [name])).length⟩) :
      Spelled p (front ++ [name])

/-- Joined names end as the last of them does. -/
theorem getLast?_intercalate {name : List Char} (hname : IsName name) (front : List (List Char)) :
    ∃ c, (['/'].intercalate (front ++ [name])).getLast? = some c ∧ c ≠ '/' := by
  obtain ⟨before, c, hbefore⟩ := (List.eq_nil_or_concat name).resolve_left hname.ne_nil
  rw [List.concat_eq_append] at hbefore
  refine ⟨c, ?_, ?_⟩
  · rw [← List.nil_append name, ← Text.intercalate_concat_append, hbefore, ← List.append_assoc,
      List.getLast?_concat]
  · rintro rfl
    exact hname.not_mem (by simp [hbefore])

/-- What follows names that spell a path stands behind one slash. -/
theorem chars_join_of_names {p q : Path} {front : List (List Char)} {name slashes : List Char}
    (hname : IsName name) (hslashes : slashes = [] ∨ slashes = ['/'])
    (hchars : p.chars = ['/'].intercalate (front ++ [name]) ++ slashes)
    (hq : q.isAbsolute = false) :
    (p.join q).chars = ['/'].intercalate (front ++ [name]) ++ '/' :: q.chars := by
  obtain ⟨c, hlast, hc⟩ := getLast?_intercalate hname front
  have hne : ['/'].intercalate (front ++ [name]) ≠ [] := by
    rintro hnil
    simp [hnil] at hlast
  rw [chars_join hq, hchars]
  rcases hslashes with rfl | rfl
  · simp [hne, hlast, hc]
  · simp

namespace Spelled

variable {p : Path} {names : List (List Char)}

/-- An empty name leaves a slash behind, or nothing. -/
theorem join_nil (h : p.Spelled names) : (p.join (ofChars [])).Spelled names := by
  have hrelative : (ofChars []).isAbsolute = false := rfl
  cases h with
  | empty => exact .empty
  | names front name slashes hname hslashes hchars hlast =>
    have hjoin := chars_join_of_names hname hslashes hchars hrelative
    rw [chars_ofChars] at hjoin
    have hp : p.chars ≠ [] := by
      rintro hnil
      simp [marks, isAbsolute, hnil, marksFrom, component?] at hlast
    have hmarks : (p.join (ofChars [])).marks = p.marks := by
      rw [marks_join hp hrelative]
      simp [marksFrom, component?]
    refine .names front name ['/'] hname (.inr rfl) hjoin ?_
    rw [hmarks, hlast]

/-- A name goes behind the others. -/
theorem join_name (h : p.Spelled names) {name : List Char} (hname : IsName name) :
    (p.join (ofChars name)).Spelled (names ++ [name]) := by
  have hchars : (p.join (ofChars name)).chars = ['/'].intercalate (names ++ [name]) := by
    cases h with
    | empty =>
      have hempty : Path.empty.chars = [] := by simp [Path.empty, chars]
      simp [chars_join hname.isAbsolute_eq_false, hempty]
    | names front last slashes hlast hslashes hchars _ =>
      rw [chars_join_of_names hlast hslashes hchars hname.isAbsolute_eq_false, chars_ofChars,
        Text.intercalate_append (by simp) (List.cons_ne_nil name []), List.intercalate_singleton]
  refine .names names name [] hname (.inl rfl) (by rw [hchars, List.append_nil]) ?_
  rw [hname.marks_join, List.getLast?_concat, hchars]

/-- Names put one after the other spell what is left of them without the empty ones. -/
theorem foldl_join (h : p.Spelled names) {parts : List (List Char)}
    (hparts : ∀ part ∈ parts, part = [] ∨ IsName part) :
    ((parts.map ofChars).foldl join p).Spelled (names ++ parts.filter (!·.isEmpty)) := by
  induction parts generalizing p names with
  | nil => simpa using h
  | cons part parts ih =>
    have hrest : ∀ part ∈ parts, part = [] ∨ IsName part := fun q hq =>
      hparts q (List.mem_cons_of_mem part hq)
    rw [List.map_cons, List.foldl_cons]
    rcases hparts part List.mem_cons_self with rfl | hname
    · simpa using ih h.join_nil hrest
    · simpa [hname.ne_nil] using ih (h.join_name hname) hrest

/-- The extension goes behind the last name, in the place of a slash. -/
theorem chars_withExtension (h : p.Spelled names) (hdots : ∀ name ∈ names, '.' ∉ name)
    (extension : String) :
    (p.withExtension extension).chars =
      if names = [] then []
      else ['/'].intercalate names ++
        if extension.isEmpty then [] else '.' :: extension.toList := by
  cases h with
  | empty => rfl
  | names front name slashes hname hslashes hchars hlast =>
    have hstem : stemOf name = name := stemOf_of_not_mem (hdots name (by simp))
    have hle : name.length ≤ (['/'].intercalate (front ++ [name])).length := by
      have hends := Text.intercalate_concat_append (x := '/') front [] name
      rw [List.nil_append] at hends
      rw [← hends, List.length_append]
      exact Nat.le_add_left _ _
    simp only [withExtension, hlast, String.toList_ofList, hstem, Nat.sub_add_cancel hle, hchars,
      List.take_left, chars_ofChars]
    rw [if_neg (List.append_ne_nil_of_right_ne_nil front (List.cons_ne_nil name []))]

end Spelled

end Path

namespace Import

/-- The names of a module, which stand between its dots. -/
def moduleNames (module : String) : List (List Char) :=
  (module.toList.splitOn '.').filter (!·.isEmpty)

/-- **The path of a module is its names with slashes between them,** and the extension. -/
theorem modulePath_eq (extension : String) {module : String} (hslash : '/' ∉ module.toList) :
    (modulePath extension module).chars =
      if moduleNames module = [] then []
      else ['/'].intercalate (moduleNames module) ++
        if extension.isEmpty then [] else '.' :: extension.toList := by
  have hdots : ∀ part ∈ module.toList.splitOn '.', '.' ∉ part := fun part =>
    Text.not_mem_of_mem_splitOn
  have hparts : ∀ part ∈ module.toList.splitOn '.', part = [] ∨ Path.IsName part := by
    intro part hpart
    refine (Decidable.em (part = [])).imp_right fun hne => ⟨hne, ?_, ?_, fun hmem => ?_⟩
    · rintro rfl
      exact hdots _ hpart (by simp)
    · rintro rfl
      exact hdots _ hpart (by simp)
    · exact hslash (Text.mem_of_mem_splitOn hpart hmem)
  have hspelled := Path.Spelled.empty.foldl_join hparts
  rw [List.nil_append] at hspelled
  rw [modulePath, hspelled.chars_withExtension
    (fun name hname => hdots name (List.mem_filter.1 hname).1), moduleNames]

end Import
end CompletionPrompt
