import CompletionPrompt.Proofs.Import.Resolution
import CompletionPrompt.Proofs.Source.CutOff
import CompletionPrompt.Proofs.Target.HeaderEnd

/-!
# The imports of a target

The text of a target is the beginning of its source down to the end of the header
(`toList_source_of_locate`). It is read again, and a source that is cut off has the import statements
that stop in it (`Source.importSpans_beginning`), each with the same span and the same text
(`statementsOf_beginning`). The token that settles them is the keyword that the definition starts with,
since no import statement stands between it and the end of the header (`importSpans_header`).

A header that starts on the first row has a line feed in front of it, which moves everything down. It
moves no import statement, because none stands before a definition whose first decorator is on the first
row (`importSpans_header_eq_nil`).
-/

namespace CompletionPrompt

/-! ### Import statements of a beginning -/

namespace Import

open Source

section
variable [Parser]

theorem statementsOf_eq (text : String) :
    statementsOf text = (importSpans .wholeSource text.toList).filterMap fun span =>
      parse? (String.ofList (span.extract text.toList)) span := by
  rw [statementsOf, importStatements, List.filterMap_map]
  rfl

/-- Import statements are read from their spans alone. -/
theorem statementsOf_beginning [LawfulParser] {front text : String} {b : List Char}
    (htext : text.toList = front.toList ++ b) {p : Span → Bool}
    (hspans : importSpans .wholeSource front.toList =
      (importSpans .wholeSource text.toList).filter p) :
    statementsOf front = (statementsOf text).filter fun i => p i.span := by
  have hread : statementsOf front = (importSpans .wholeSource front.toList).filterMap fun span =>
      parse? (String.ofList (span.extract text.toList)) span := by
    rw [statementsOf_eq]
    refine List.filterMap_congr fun span hspan => ?_
    rw [htext, (fits_of_mem_importSpans hspan).extract_append]
  rw [hread, hspans, statementsOf_eq, List.filterMap_filter, List.filter_filterMap]
  refine List.filterMap_congr fun span _ => ?_
  cases hi : parse? (String.ofList (span.extract text.toList)) span with
  | none => rw [ite_self, Option.filter_none]
  | some i => rw [Option.filter_some, span_of_parse? hi]

end

end Import

namespace Target

open Source

variable {text : List Char}

/-! ### The text of a target -/

/-- A text that is cut at the row of a place and joined again is the text up to its end, with a line
feed in front when the row is the first. -/
theorem rejoin_splitRow {before : List Char} (after : List Char) {stop : Nat}
    (hle : before.length ≤ stop) :
    let cut := splitRow (before ++ after) (Place.endOf before)
    dropLineFeed cut.1 ++ '\n' :: cut.2.take (stop - cut.1.length) =
      (if Text.lineFeeds before = 0 then ['\n'] else []) ++ (before ++ after).take stop := by
  obtain ⟨above, row, hbefore, hsplit, hfeeds, habove⟩ := exists_splitRow before after
  rw [hsplit, ← hfeeds]
  subst hbefore
  rw [List.length_append] at hle
  dsimp only
  rcases habove with rfl | hfeed
  · rfl
  · obtain ⟨front, rfl⟩ := List.getLast?_eq_some_iff.1 hfeed
    have hne : Text.lineFeeds (front ++ ['\n']) ≠ 0 := by
      rw [Text.lineFeeds_append]
      exact Nat.succ_ne_zero _
    have hdrop : dropLineFeed (front ++ ['\n']) = front := by
      simp [dropLineFeed]
    have htake : (front ++ ['\n'] ++ (row ++ after)).take stop =
        front ++ ['\n'] ++ (row ++ after).take (stop - (front ++ ['\n']).length) := by
      rw [List.take_append, List.take_of_length_le (Nat.le_of_add_right_le hle)]
    rw [if_neg hne, hdrop, List.append_assoc _ row, htake]
    simp

theorem toList_source (t : Target) :
    t.source.toList = t.prelude.toList ++ '\n' :: t.header.toList := by
  simp [source]

/-- **The text of a target is the source up to the end of its header,** with a line feed in front when
the header starts on the first row. -/
theorem toList_source_of_locate [Parser] [LawfulParser] {path : Path} {text name : String}
    {target : Target} (h : locate path text name = .ok target) :
    ∃ parent definition before after,
      IsChild (parse text.toList) parent definition ∧
      (parse text.toList).nodes = before ++ definition :: after ∧
      defines text.toList name.toList definition = true ∧
      (∀ n ∈ before, defines text.toList name.toList n = false) ∧
      target.source.toList =
        (if (outer parent definition).start.row = 0 then ['\n'] else []) ++
          text.toList.take (headerEnd definition).offset := by
  obtain ⟨parent, definition, before, after, hchild, hnodes, hdefines, hbefore, rfl⟩ :=
    exists_of_locate h
  refine ⟨parent, definition, before, after, hchild, hnodes, hdefines, hbefore, ?_⟩
  obtain ⟨front, rest, htext, hstart, hle, -⟩ := hchild.exists_start fun n hn =>
    LawfulParser.standsIn hn
  rw [toList_source, String.toList_ofList, String.toList_ofList, hstart, htext]
  exact rejoin_splitRow rest hle

/-- What the text of a target ends with, behind one line feed at most, ends with its header. -/
theorem header_suffix {t : Target} {lead s : List Char} (h : t.source.toList = lead ++ s)
    (hlead : lead.length ≤ 1) : t.header.toList <:+ s := by
  have hheader : t.header.toList <:+ t.source.toList :=
    ⟨t.prelude.toList ++ ['\n'], by simp [toList_source]⟩
  refine List.suffix_of_suffix_length_le hheader ⟨lead, h.symm⟩ ?_
  have hlength := congrArg List.length (h.symm.trans (toList_source t))
  rw [List.length_append, List.length_append, List.length_cons] at hlength
  omega

/-! ### The imports of a target -/

section
variable [Parser] [LawfulParser] [GrammaticalParser] [ForwardParser]

/-- The source up to the end of a header has the import statements that stop in it. -/
theorem importSpans_header {u v : List Char} {definition : Tree}
    (hwhole : (parse (u ++ v)).ErrorFree) (hu : (parse u).ErrorFree)
    (hdefinition : definition ∈ (parse (u ++ v)).nodes) (hfunction : definition.isFunction = true)
    (hend : (headerEnd definition).offset = u.length) :
    importSpans .wholeSource u =
      (importSpans .wholeSource (u ++ v)).filter fun span =>
        Text.PlaceLe span.stop (Text.endOf u) := by
  have hin : ∀ n ∈ (parse (u ++ v)).nodes, n.StandsIn (u ++ v) := fun n hn =>
    LawfulParser.standsIn hn
  have hrules := GrammaticalParser.grammatical hwhole
  have hedge : (parse (u ++ v)).HasEdge u.length := by
    obtain ⟨n, hn, hplace⟩ := (exists_headerEnd definition).1
    rw [← hend]
    exact ⟨n, Tree.nodes_subset hdefinition hn,
      hplace.imp (fun h => by rw [h]) fun h => by rw [h]⟩
  obtain ⟨k, hk, hstart, hroom, hread⟩ :=
    exists_token_of_function hin hrules.toKeepsFunctionRules hdefinition hfunction
  refine importSpans_beginning hwhole hu hedge ⟨hk, hroom, hend ▸ hread, fun n hn himport => ?_⟩
  have hside := stop_le_or_headerEnd_le hin hrules hdefinition hfunction hn himport
  rw [hend] at hside
  exact hside.imp_left fun h => Nat.le_trans h hstart

/-- Nothing is imported up to the end of the header of a definition that is decorated from the first row
on. -/
theorem importSpans_header_eq_nil {u v : List Char} {parent : Option Tree} {definition : Tree}
    (hwhole : (parse (u ++ v)).ErrorFree) (hu : (parse u).ErrorFree)
    (hchild : IsChild (parse (u ++ v)) parent definition) (hfunction : definition.isFunction = true)
    (hend : (headerEnd definition).offset = u.length)
    (hrow : (outer parent definition).start.row = 0) (hbelow : 0 < definition.start.row) :
    importSpans .wholeSource u = [] := by
  have hin : ∀ n ∈ (parse (u ++ v)).nodes, n.StandsIn (u ++ v) := fun n hn =>
    LawfulParser.standsIn hn
  rw [importSpans_header hwhole hu hchild.mem hfunction hend, List.filter_eq_nil_iff]
  intro span hspan
  obtain ⟨n, hn, rfl⟩ := mem_importSpans_iff.1 hspan
  obtain ⟨hn, himport⟩ := mem_imports_wholeSource.1 hn
  have hlt := headerEnd_lt_stop_of_first_row hin (GrammaticalParser.grammatical hwhole) hchild
    hfunction hrow hbelow hn himport (LawfulParser.import_room hn himport)
  rw [decide_eq_true_eq, (hin n hn).placeLe_iff rfl, ← hend]
  exact Nat.not_le.2 hlt

end

end Target
end CompletionPrompt
