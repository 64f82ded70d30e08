import CompletionPrompt.Proofs.Source.Laws
import CompletionPrompt.Source.LayoutTree

/-!
# Statements in their places

The pieces of a source stand where their texts stand in it (`Source.start_of_pieces`), and the
layout reads each piece once. A piece does one of four things to the statement that is being read
(`Layout.Taken`): it is passed over, it ends the statement in front of it, it becomes its last
token, or it becomes the last token of a header and ends it. So the statements of a source are laid
out one behind another (`laidOut_statements`), and an import statement, which is never a header, is
followed by a piece that no word starts with (`not_isWordChar_behind`).
-/

namespace CompletionPrompt
namespace Source

/-! ### Pieces -/

/-- The text of pieces behind one another. -/
def written (ps : List Piece) : List Char :=
  ps.flatMap (·.text)

@[simp] theorem written_append (ps qs : List Piece) :
    written (ps ++ qs) = written ps ++ written qs :=
  List.flatMap_append

@[simp] theorem written_cons (p : Piece) (ps : List Piece) :
    written (p :: ps) = p.text ++ written ps :=
  List.flatMap_cons

@[simp] theorem written_nil : written [] = [] := rfl

theorem written_placeFrom (p : Place) (ls : List Lexeme) :
    written (placeFrom p ls) = (ls.map (·.text)).flatten := by
  induction ls generalizing p with
  | nil => rfl
  | cons l ls ih => simp [placeFrom, ih]

/-- The pieces of a source are the source cut up. -/
theorem written_pieces (text : List Char) : written (pieces text) = text := by
  rw [pieces, written_placeFrom, flatten_lexemes]

theorem start_of_placeFrom {s : List Char} {ls : List Lexeme} {before after : List Piece}
    {p : Piece} (h : placeFrom (Place.endOf s) ls = before ++ p :: after) :
    p.start = Place.endOf (s ++ written before) ∧
      p.stop = Place.endOf (s ++ written before ++ p.text) := by
  induction ls generalizing s before with
  | nil => simp [placeFrom] at h
  | cons l ls ih =>
    rw [placeFrom, Place.after_endOf] at h
    cases before with
    | nil =>
      obtain ⟨rfl, -⟩ := List.cons.inj h
      simp
    | cons q before =>
      obtain ⟨rfl, hrest⟩ := List.cons.inj h
      simpa using ih hrest

/-- **A piece of a source stands where its text stands.** -/
theorem start_of_pieces {text : List Char} {before after : List Piece} {p : Piece}
    (h : pieces text = before ++ p :: after) :
    p.start = Place.endOf (written before) ∧ p.stop = Place.endOf (written before ++ p.text) := by
  have hstart : Place.start = Place.endOf [] := rfl
  rw [pieces, hstart] at h
  simpa using start_of_placeFrom h

/-- A lexeme is measured from its first character. -/
theorem exists_measure_of_mem_lexemes {s : List Char} {l : Lexeme} (h : l ∈ lexemes s) :
    ∃ c after, l = ⟨(measure c after).1, c :: after.take (measure c after).2⟩ := by
  fun_induction lexemes s with
  | case1 => simp at h
  | case2 c cs kind more hm ih =>
    rcases List.mem_cons.1 h with rfl | h
    · exact ⟨c, cs, by rw [hm]⟩
    · exact ih h

/-- Can a piece of this kind be a token of a statement? -/
def Kind.isCode : Kind → Bool
  | .blank | .rowEnd | .continuation | .comment => false
  | .word | .number | .literal | .mark => true

/-- A piece that may stand behind a statement: no code, or a semicolon. -/
def Piece.separates (p : Piece) : Bool :=
  !p.kind.isCode || p.isMark ";"

theorem not_isWordChar_of_isSpace {c : Char} (h : isSpace c = true) : isWordChar c = false := by
  have hof : ∀ n, c.toNat = n → c = Char.ofNat n := fun n hn => by rw [← hn, Char.ofNat_toNat]
  simp only [isSpace, Bool.or_eq_true, decide_eq_true_eq] at h
  rcases h with ((((((h | h) | h) | h) | h) | h) | h) | h
  · rw [h]; decide
  · rw [h]; decide
  · rw [h]; decide
  · rw [hof _ h]; decide
  · rw [hof _ h]; decide
  · rw [hof _ h]; decide
  · rw [hof _ h]; decide
  · rw [hof _ h]; decide

/-- What is no code starts with no word character. -/
theorem not_isWordChar_of_measure {c : Char} {after : List Char}
    (h : (measure c after).1.isCode = false) : isWordChar c = false := by
  unfold measure at h
  split at h
  · rename_i hc
    rw [hc]
    decide
  split at h
  · rename_i hc
    exact not_isWordChar_of_isSpace hc
  split at h
  · rename_i hc
    rw [hc]
    decide
  split at h
  · rename_i hc
    rw [hc]
    decide
  split at h
  · simp [Kind.isCode] at h
  split at h
  · simp [Kind.isCode] at h
  split at h
  · unfold wordOrLiteral at h
    split at h
    split at h
    · split at h <;> simp [Kind.isCode] at h
    · simp [Kind.isCode] at h
  · rename_i hc
    simpa using hc

theorem mem_lexemes_of_mem_placeFrom {p : Place} {ls : List Lexeme} {q : Piece}
    (h : q ∈ placeFrom p ls) : ⟨q.kind, q.text⟩ ∈ ls := by
  induction ls generalizing p with
  | nil => simp [placeFrom] at h
  | cons l ls ih =>
    rcases List.mem_cons.1 h with rfl | h
    · exact List.mem_cons_self
    · exact List.mem_cons_of_mem _ (ih h)

/-- A piece that may stand behind a statement starts with a character that is in no word. -/
theorem exists_cons_of_separates {text : List Char} {p : Piece} (hp : p ∈ pieces text)
    (h : p.separates = true) : ∃ c s, p.text = c :: s ∧ isWordChar c = false := by
  rcases Bool.or_eq_true_iff.1 h with h | h
  · obtain ⟨c, after, hl⟩ := exists_measure_of_mem_lexemes (mem_lexemes_of_mem_placeFrom hp)
    obtain ⟨hkind, htext⟩ := Lexeme.mk.inj hl
    rw [hkind, Bool.not_eq_true'] at h
    exact ⟨c, _, htext, not_isWordChar_of_measure h⟩
  · simp only [Piece.isMark, Bool.and_eq_true, decide_eq_true_eq] at h
    exact ⟨';', [], h.2, by decide⟩

/-! ### What a piece does -/

/-- The statement that a node is, unless it is a comment. -/
def Node.statement? : Node → Option Statement
  | .statement s => some s
  | .comment _ _ => none

namespace Layout

/-- What a piece does to the statement that is being read: the statements that it lets end, and the
tokens that are kept. -/
inductive Taken (l : Layout) (p : Piece) : List Statement → List Piece → Prop where
  /-- The piece is passed over. -/
  | pass : p.separates = true → Taken l p [] l.tokens
  /-- The statement ends in front of the piece. -/
  | stop (depth : Nat) : p.separates = true → l.tokens ≠ [] →
      Taken l p [⟨depth, l.tokens.reverse⟩] []
  /-- The piece is a token of the statement. -/
  | push : Taken l p [] (p :: l.tokens)
  /-- The piece is the colon of a header. -/
  | header (depth : Nat) : Statement.isImport ⟨depth, (p :: l.tokens).reverse⟩ = false →
      Taken l p [⟨depth, (p :: l.tokens).reverse⟩] []

theorem close_of_isEmpty {l : Layout} (h : l.tokens = []) : l.close = ([], l) := by
  simp [close, h]

theorem close_of_ne_nil {l : Layout} (h : l.tokens ≠ []) :
    l.close = ([.statement ⟨l.depth, l.tokens.reverse⟩],
      { l with tokens := [], lambdas := 0, row := .between }) := by
  simp [close, h]

theorem tokens_enterRow (l : Layout) : l.enterRow.tokens = l.tokens := by
  unfold enterRow
  split
  · split
    · split <;> rfl
    · rfl
  · rfl

/-- Words are told apart by their texts. -/
theorem eq_of_isWord {p : Piece} {v w : String} (hv : p.isWord v = true)
    (hw : p.isWord w = true) : v = w := by
  simp only [Piece.isWord, Bool.and_eq_true, decide_eq_true_eq] at hv hw
  exact String.toList_injective (hv.2.symm.trans hw.2)

theorem not_isOneOf_import {p : Piece} {w : String} (hw : p.isWord w = true)
    (hne : w ∉ ["import", "from"]) : p.isOneOf ["import", "from"] = false := by
  rw [Bool.eq_false_iff]
  intro h
  obtain ⟨v, hv, hpv⟩ := List.any_eq_true.1 h
  exact hne (eq_of_isWord hw hpv ▸ hv)

/-- What a header starts with is no word of an import. -/
theorem not_isImport_of_startsHeader {first : Piece} {others : List Piece}
    (h : startsHeader (first :: others) = true) : first.isOneOf ["import", "from"] = false := by
  rcases Bool.or_eq_true_iff.1 h with hfirst | hasync
  · obtain ⟨w, hw, hfw⟩ := List.any_eq_true.1 hfirst
    refine not_isOneOf_import hfw fun hmem => ?_
    simp only [headerWords, List.mem_cons, List.not_mem_nil, or_false] at hw hmem
    rcases hmem with rfl | rfl <;> simp at hw
  · exact not_isOneOf_import (Bool.and_eq_true_iff.1 hasync).1 (by decide)

/-- No header imports something. -/
theorem not_isImport_of_suite? {l : Layout} {rest : List Piece} {cases : Bool}
    (h : l.suite? rest = some cases) (depth : Nat) (p : Piece) :
    Statement.isImport ⟨depth, (p :: l.tokens).reverse⟩ = false := by
  unfold suite? at h
  split at h
  · simp at h
  · rename_i first others hrev
    have hhead : Statement.isImport ⟨depth, (p :: l.tokens).reverse⟩ =
        first.isOneOf ["import", "from"] := by
      simp [Statement.isImport, hrev]
    rw [hhead]
    split at h
    · rename_i hheader
      exact not_isImport_of_startsHeader hheader
    split at h
    · rename_i hfirst
      simp only [Bool.and_eq_true] at hfirst
      exact not_isOneOf_import hfirst.1.1 (by decide)
    split at h
    · rename_i hfirst
      simp only [Bool.and_eq_true] at hfirst
      exact not_isOneOf_import hfirst.1.1 (by decide)
    · simp at h

theorem taken_takeRowEnd {l : Layout} {p : Piece} (hp : p.separates = true) :
    Taken l p (l.takeRowEnd.1.filterMap Node.statement?) l.takeRowEnd.2.tokens := by
  unfold takeRowEnd
  split
  · exact .pass hp
  · by_cases h : l.tokens = []
    · rw [close_of_isEmpty h]
      exact .pass hp
    · rw [close_of_ne_nil h]
      exact .stop l.depth hp h

theorem taken_takeComment {l : Layout} {p : Piece} (hp : p.separates = true)
    (rest : List Piece) :
    Taken l p ((l.takeComment p rest).1.filterMap Node.statement?)
      (l.takeComment p rest).2.tokens := by
  unfold takeComment
  split
  · exact .pass hp
  split
  · rename_i hempty
    have hne : l.tokens ≠ [] := by simpa using hempty
    rw [close_of_ne_nil hne]
    exact .stop l.depth hp hne
  · split
    · dsimp only
      split <;> exact .pass hp
    · exact .pass hp

theorem taken_takeCode (l : Layout) (p : Piece) (rest : List Piece) :
    Taken l p ((l.takeCode p rest).1.filterMap Node.statement?) (l.takeCode p rest).2.tokens := by
  unfold takeCode
  extract_lets l₀ l₁
  have htokens : l₀.tokens = l.tokens := by
    simp only [l₀]
    split
    · exact tokens_enterRow l
    · rfl
  have hpush : l₁.tokens = p :: l.tokens := congrArg (p :: ·) htokens
  split
  · rename_i hsemi
    have hp : p.separates = true := Bool.or_eq_true_iff.2 (.inr (Bool.and_eq_true_iff.1 hsemi).2)
    by_cases h : l.tokens = []
    · rw [close_of_isEmpty (htokens.trans h)]
      exact htokens ▸ .pass hp
    · rw [close_of_ne_nil (htokens ▸ h), htokens]
      exact .stop l₀.depth hp h
  split
  · exact hpush ▸ .push
  split
  · exact hpush ▸ .push
  split
  · split
    · exact hpush ▸ .push
    · split
      · exact hpush ▸ .push
      · rename_i cases hsuite
        have hne : l₁.tokens ≠ [] := hpush ▸ List.cons_ne_nil _ _
        have himport := not_isImport_of_suite? hsuite l₁.depth p
        simp only [hpush, List.drop_one, List.tail_cons] at himport
        rw [close_of_ne_nil hne, hpush]
        exact .header l₁.depth himport
  · exact hpush ▸ .push

/-- **A piece does one of four things.** -/
theorem taken_take (l : Layout) (p : Piece) (rest : List Piece) :
    Taken l p ((l.take p rest).1.filterMap Node.statement?) (l.take p rest).2.tokens := by
  have hsep : p.kind.isCode = false → p.separates = true := fun h => by simp [Piece.separates, h]
  unfold take
  split
  · rename_i hkind
    have hp := hsep (by rw [hkind]; rfl)
    split <;> exact .pass hp
  · rename_i hkind
    exact taken_takeRowEnd (hsep (by rw [hkind]; rfl))
  · rename_i hkind
    exact .pass (hsep (by rw [hkind]; rfl))
  · rename_i hkind
    exact taken_takeComment (hsep (by rw [hkind]; rfl)) rest
  · exact taken_takeCode l p rest

end Layout

/-! ### Statements behind one another -/

/-- The pieces that a statement goes over: from its first token to its last, with what is passed
over between them. -/
structure Statement.Covers (s : Statement) (read : List Piece) : Prop where
  first : read.head? = s.tokens.head?
  last : read.getLast? = s.tokens.getLast?
  kept : s.tokens.Sublist read
  nonempty : s.tokens ≠ []

/-- Statements laid out over pieces: each goes over pieces of its own, in order, and the piece after
an import statement may stand behind a statement. -/
inductive LaidOut : List Piece → List Statement → Prop where
  | done (ps : List Piece) : LaidOut ps []
  | statement {s : Statement} {read after : List Piece} {rest : List Statement}
      (before : List Piece) : s.Covers read →
      (s.isImport = true → ∀ p ∈ after.head?, p.separates = true) → LaidOut after rest →
      LaidOut (before ++ read ++ after) (s :: rest)

/-- Pieces in front that no statement goes over. -/
theorem LaidOut.append {ps : List Piece} {ss : List Statement} (h : LaidOut ps ss)
    (qs : List Piece) : LaidOut (qs ++ ps) ss := by
  cases h with
  | done => exact .done _
  | statement before hcovers hsep hrest =>
    rw [← List.append_assoc, ← List.append_assoc]
    exact .statement (qs ++ before) hcovers hsep hrest

/-- What the layout has read of a statement, and the pieces that it has passed over since the last
token. -/
structure Layout.Reading (l : Layout) (read passed : List Piece) : Prop where
  first : read.head? = l.tokens.getLast?
  last : read.getLast? = l.tokens.head?
  kept : l.tokens.reverse.Sublist read
  passed : ∀ p ∈ passed, p.separates = true

namespace Layout.Reading

variable {l : Layout} {read passed : List Piece}

theorem covers (h : l.Reading read passed) (hne : l.tokens ≠ []) (depth : Nat) :
    Statement.Covers ⟨depth, l.tokens.reverse⟩ read where
  first := by rw [h.first, List.head?_reverse]
  last := by rw [h.last, List.getLast?_reverse]
  kept := h.kept
  nonempty := by simpa using hne

theorem read_eq_nil (h : l.Reading read passed) (hempty : l.tokens = []) : read = [] := by
  rw [← List.head?_eq_none_iff, h.first, hempty, List.getLast?_nil]

theorem start {l : Layout} (h : l.tokens = []) (passed : List Piece)
    (hp : ∀ p ∈ passed, p.separates = true) : l.Reading [] passed where
  first := by simp [h]
  last := by simp [h]
  kept := by simp [h]
  passed := hp

theorem pass (h : l.Reading read passed) {l' : Layout} (htokens : l'.tokens = l.tokens)
    {p : Piece} (hp : p.separates = true) : l'.Reading read (passed ++ [p]) where
  first := htokens ▸ h.first
  last := htokens ▸ h.last
  kept := htokens ▸ h.kept
  passed := by
    intro q hq
    rcases List.mem_append.1 hq with hq | hq
    · exact h.passed q hq
    · rw [List.mem_singleton.1 hq]
      exact hp

/-- One more token: what was passed over since the token before it is part of the statement, unless
it is the first token. -/
theorem push (h : l.Reading read passed) {l' : Layout} {p : Piece}
    (htokens : l'.tokens = p :: l.tokens) :
    ∃ before read', l'.Reading read' [] ∧ read ++ passed ++ [p] = before ++ read' := by
  by_cases hempty : l.tokens = []
  · refine ⟨passed, [p], ⟨?_, ?_, ?_, by simp⟩, ?_⟩
    · simp [htokens, hempty]
    · simp [htokens]
    · simp [htokens, hempty]
    · rw [h.read_eq_nil hempty, List.nil_append]
  · refine ⟨[], read ++ passed ++ [p], ⟨?_, ?_, ?_, by simp⟩, rfl⟩
    · have hread : read ≠ [] := fun hnil => hempty (by
        rw [← List.getLast?_eq_none_iff, ← h.first, hnil, List.head?_nil])
      obtain ⟨q, qs, rfl⟩ := List.exists_cons_of_ne_nil hread
      rw [htokens, List.getLast?_cons_of_ne_nil hempty, ← h.first]
      rfl
    · rw [htokens, List.getLast?_concat, List.head?_cons]
    · rw [htokens, List.reverse_cons]
      exact (h.kept.trans (List.sublist_append_left read passed)).append (List.Sublist.refl [p])

end Layout.Reading

/-- The statements that the layout reads from the rest of a source, and the one that is being read,
are laid out over the pieces that it started with and the rest. -/
theorem laidOut_nodesFrom {l : Layout} {read passed : List Piece} (h : l.Reading read passed)
    (ps : List Piece) :
    LaidOut (read ++ passed ++ ps) ((l.nodesFrom ps).filterMap Node.statement?) := by
  induction ps generalizing l read passed with
  | nil =>
    rw [Layout.nodesFrom, List.append_nil]
    by_cases hempty : l.tokens = []
    · rw [Layout.close_of_isEmpty hempty]
      exact .done _
    · rw [Layout.close_of_ne_nil hempty]
      exact .statement [] (h.covers hempty l.depth)
        (fun _ p hp => h.passed p (List.mem_of_mem_head? hp)) (.done passed)
  | cons p ps ih =>
    have htaken := Layout.taken_take l p ps
    rw [Layout.nodesFrom, List.filterMap_append]
    generalize (l.take p ps).1.filterMap Node.statement? = ended at htaken ⊢
    generalize hl' : (l.take p ps).2 = l' at htaken ⊢
    generalize htokens : l'.tokens = tokens at htaken
    cases htaken with
    | pass hp =>
      have hrest := ih (h.pass htokens hp)
      rwa [← List.append_assoc, List.append_assoc, List.singleton_append] at hrest
    | stop depth hp hne =>
      have hpassed : ∀ q ∈ passed ++ [p], q.separates = true := (h.pass rfl hp).passed
      have hhead : ∀ q ∈ (passed ++ p :: ps).head?, q.separates = true := by
        intro q hq
        have hq' : q ∈ (passed ++ [p]).head? := by cases passed <;> exact hq
        exact hpassed q (List.mem_of_mem_head? hq')
      have hrest := ih (Layout.Reading.start htokens _ hpassed)
      rw [List.nil_append, List.append_assoc, List.singleton_append] at hrest
      rw [List.append_assoc]
      exact .statement [] (h.covers hne depth) (fun _ => hhead) hrest
    | push =>
      obtain ⟨before, read', h', heq⟩ := h.push htokens
      have hrest := (ih h').append before
      rwa [List.append_nil, ← List.append_assoc, ← heq, List.append_assoc,
        List.singleton_append] at hrest
    | header depth himport =>
      have hpush : { l with tokens := p :: l.tokens }.tokens = p :: l.tokens := rfl
      obtain ⟨before, read', h', heq⟩ := h.push hpush
      have hrest := ih (Layout.Reading.start htokens [] (by simp))
      rw [← List.singleton_append, ← List.append_assoc, heq]
      exact .statement before (h'.covers (List.cons_ne_nil _ _) depth)
        (fun hs => absurd (himport.symm.trans hs) Bool.false_ne_true) hrest

/-- The statements of a source, in source order. -/
def statements (s : List Char) : List Statement :=
  (nodes s).filterMap fun
    | .statement s => some s
    | .comment _ _ => none

/-- **The statements of a source are laid out over its pieces.** -/
theorem laidOut_statements (text : List Char) : LaidOut (pieces text) (statements text) :=
  laidOut_nodesFrom (Layout.Reading.start rfl [] (by simp)) (pieces text)

/-- A statement that is laid out over pieces goes over some of them, and an import statement is
followed by a piece that may stand behind a statement. -/
theorem LaidOut.exists_covers {ps : List Piece} {ss : List Statement} (h : LaidOut ps ss) :
    ∀ s ∈ ss, ∃ before read after, ps = before ++ read ++ after ∧ s.Covers read ∧
      (s.isImport = true → ∀ p ∈ after.head?, p.separates = true) := by
  induction h with
  | done => simp
  | @statement s read after rest before hcovers hsep hrest ih =>
    intro t ht
    rcases List.mem_cons.1 ht with rfl | ht
    · exact ⟨before, read, after, rfl, hcovers, hsep⟩
    · obtain ⟨before', read', after', rfl, hcovers', hsep'⟩ := ih t ht
      exact ⟨before ++ read ++ before', read', after', by simp, hcovers', hsep'⟩

/-- What follows an import statement starts with no word character. -/
theorem not_isWordChar_behind {text : List Char} {s : Statement} (hs : s ∈ statements text)
    (himport : s.isImport = true) :
    ∃ last ∈ s.tokens.getLast?, ∀ c ∈ (text.drop last.stop.offset).head?, isWordChar c = false := by
  obtain ⟨before, read, after, hpieces, hcovers, hsep⟩ := (laidOut_statements text).exists_covers s hs
  have hlast := List.getLast?_eq_some_getLast hcovers.nonempty
  refine ⟨_, hlast, ?_⟩
  obtain ⟨front, hread⟩ := List.getLast?_eq_some_iff.1 (hcovers.last.trans hlast)
  generalize s.tokens.getLast hcovers.nonempty = last at hread
  have hcut : pieces text = (before ++ front) ++ last :: after := by
    rw [hpieces, hread]
    simp
  rw [hread, ← List.append_assoc] at hpieces
  have hbehind : text.drop last.stop.offset = written after := by
    have hstop := (start_of_pieces hcut).2
    have htext : text = written (before ++ front) ++ last.text ++ written after := by
      rw [← written_pieces text, hpieces]
      simp
    rw [hstop, htext]
    exact List.drop_left
  rw [hbehind]
  cases after with
  | nil => simp
  | cons p after =>
    have hp : p ∈ pieces text := by simp [hpieces]
    obtain ⟨c, cs, hc, hword⟩ := exists_cons_of_separates hp (hsep himport p rfl)
    intro d hd
    rw [written_cons, hc] at hd
    obtain rfl := Option.some.inj hd
    exact hword

end Source
end CompletionPrompt
