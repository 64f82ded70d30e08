import CompletionPrompt.Proofs.Source.Lookahead
import CompletionPrompt.Proofs.Source.Order

/-!
# The imports of a beginning

The layout reads a beginning of the pieces in front of a rest (`Layout.run`), and hands on nodes that
it then goes on behind (`Layout.nodesFrom_append`). What it reads depends on the rest: how deep a
comment stands, and whether a colon behind `match` ends a header, is seen from the pieces that follow.
But it looks no further than to the next code, and import statements have no say in it: from the
first piece that is read in two ways on, up to the end of the beginning, there is no import at all
(`Layout.importTokens_run_eq`).

Only the statement that is being read at the end of the beginning is still open. In the whole source
it may go on behind the end (`Layout.exists_importTokens_nodesFrom`). So an import statement with more
behind it in the beginning is one of the beginning (`mem_importTokens_beginning`), and each of the
beginning starts one of the source (`exists_importTokens_prefix`).
-/

namespace CompletionPrompt
namespace Source

/-! ### Import statements among nodes -/

/-- The tokens of the import statements among nodes. -/
def importTokens (ns : List Node) : List (List Piece) :=
  ((ns.filterMap Node.statement?).filter Statement.isImport).map (·.tokens)

theorem importTokens_append (ms ns : List Node) :
    importTokens (ms ++ ns) = importTokens ms ++ importTokens ns := by
  simp [importTokens]

theorem mem_importTokens_iff {ts : List Piece} {ns : List Node} :
    ts ∈ importTokens ns ↔
      ∃ s, .statement s ∈ ns ∧ s.isImport = true ∧ s.tokens = ts := by
  simp only [importTokens, List.mem_map, List.mem_filter, List.mem_filterMap]
  constructor
  · rintro ⟨s, ⟨⟨n, hn, hs⟩, himport⟩, rfl⟩
    cases n with
    | statement t => exact ⟨s, Option.some.inj hs ▸ hn, himport, rfl⟩
    | comment depth p => cases hs
  · rintro ⟨s, hs, himport, rfl⟩
    exact ⟨s, ⟨⟨_, hs, rfl⟩, himport⟩, rfl⟩

theorem Piece.kind_of_isOneOf {p : Piece} {ws : List String} (h : p.isOneOf ws = true) :
    p.kind = .word := by
  obtain ⟨w, -, hw⟩ := List.any_eq_true.1 h
  simpa using (Bool.and_eq_true_iff.1 hw).1

theorem Statement.tokens_ne_nil_of_isImport {s : Statement} (h : s.isImport = true) :
    s.tokens ≠ [] := by
  intro hnil
  rw [isImport, hnil] at h
  exact Bool.false_ne_true h

namespace Layout

/-- Is the statement that is being read an import? -/
def inImport (l : Layout) : Bool :=
  (l.tokens.getLast?.map (·.isOneOf ["import", "from"])).getD false

theorem isImport_reverse (l : Layout) (depth : Nat) :
    Statement.isImport ⟨depth, l.tokens.reverse⟩ = l.inImport := by
  rw [Statement.isImport, inImport, List.head?_reverse]

theorem inImport_of_tokens_eq {l l' : Layout} (h : l'.tokens = l.tokens) :
    l'.inImport = l.inImport := by
  rw [inImport, inImport, h]

theorem inImport_of_isEmpty {l : Layout} (h : l.tokens = []) : l.inImport = false := by
  rw [inImport, h]
  rfl

theorem tokens_ne_nil_of_inImport {l : Layout} (h : l.inImport = true) : l.tokens ≠ [] := by
  intro hnil
  rw [inImport_of_isEmpty hnil] at h
  exact Bool.false_ne_true h

/-- A statement is an import for its first token. -/
theorem inImport_of_tokens_eq_cons {l l' : Layout} {p : Piece} (h : l'.tokens = p :: l.tokens) :
    l'.inImport = if l.tokens = [] then p.isOneOf ["import", "from"] else l.inImport := by
  rw [inImport, inImport, h]
  split
  · rename_i hnil
    rw [hnil]
    rfl
  · rename_i hne
    rw [List.getLast?_cons_of_ne_nil hne]

theorem isImport_concat (l : Layout) (p : Piece) (depth : Nat) :
    Statement.isImport ⟨depth, (p :: l.tokens).reverse⟩ =
      if l.tokens = [] then p.isOneOf ["import", "from"] else l.inImport := by
  have hpush : { l with tokens := p :: l.tokens }.tokens = p :: l.tokens := rfl
  rw [← inImport_of_tokens_eq_cons hpush]
  exact isImport_reverse { l with tokens := p :: l.tokens } depth

theorem importTokens_close (l : Layout) :
    importTokens l.close.1 = if l.inImport then [l.tokens.reverse] else [] := by
  by_cases h : l.tokens = []
  · simp [close_of_isEmpty h, inImport_of_isEmpty h, importTokens]
  · rw [close_of_ne_nil h]
    cases himport : l.inImport <;>
      simp [importTokens, Node.statement?, isImport_reverse, himport]

/-! ### Reading a beginning -/

/-- What the layout hands on while it reads pieces in front of a rest, and where it stands then. -/
def run : Layout → List Piece → List Piece → List Node × Layout
  | l, [], _ => ([], l)
  | l, p :: ps, rest =>
    let (nodes, l) := l.take p (ps ++ rest)
    let (more, l) := run l ps rest
    (nodes ++ more, l)

theorem run_cons (l : Layout) (p : Piece) (ps rest : List Piece) :
    l.run (p :: ps) rest =
      ((l.take p (ps ++ rest)).1 ++ ((l.take p (ps ++ rest)).2.run ps rest).1,
        ((l.take p (ps ++ rest)).2.run ps rest).2) :=
  rfl

theorem nodesFrom_cons (l : Layout) (p : Piece) (ps : List Piece) :
    l.nodesFrom (p :: ps) = (l.take p ps).1 ++ (l.take p ps).2.nodesFrom ps :=
  rfl

/-- **The layout reads pieces and goes on with the rest.** -/
theorem nodesFrom_append (l : Layout) (ps rest : List Piece) :
    l.nodesFrom (ps ++ rest) = (l.run ps rest).1 ++ (l.run ps rest).2.nodesFrom rest := by
  induction ps generalizing l with
  | nil => rfl
  | cons p ps ih => rw [List.cons_append, nodesFrom_cons, run_cons, ih, List.append_assoc]

theorem sublist_run (l : Layout) (ps rest : List Piece) :
    ((l.run ps rest).1.flatMap Node.pieces ++ (l.run ps rest).2.tokens.reverse).Sublist
      (l.tokens.reverse ++ ps) := by
  induction ps generalizing l with
  | nil => simp [run]
  | cons p ps ih =>
    rw [run_cons, List.flatMap_append, List.append_assoc, ← List.singleton_append,
      ← List.append_assoc l.tokens.reverse]
    refine (List.Sublist.append (List.Sublist.refl _) (ih _)).trans ?_
    rw [← List.append_assoc]
    exact (sublist_take l p (ps ++ rest)).append (List.Sublist.refl ps)

/-! ### Looking ahead -/

section
variable {ps : List Piece}

theorem exists_isCode_of_cons {p : Piece} (h : ∃ q ∈ p :: ps, q.kind.isCode = true)
    (hp : p.kind.isCode = false) : ∃ q ∈ ps, q.kind.isCode = true := by
  obtain ⟨q, hq, hcode⟩ := h
  rcases List.mem_cons.1 hq with rfl | hq
  · exact absurd hcode (by simp [hp])
  · exact ⟨q, hq, hcode⟩

/-- The indentation of the next code is seen no further than from that code. -/
theorem nextIndent_append (h : ∃ p ∈ ps, p.kind.isCode = true) (n : Nat) (rest : List Piece) :
    nextIndent n (ps ++ rest) = nextIndent n ps := by
  induction ps generalizing n with
  | nil => simp at h
  | cons p ps ih =>
    rw [List.cons_append, nextIndent, nextIndent]
    cases hkind : p.kind <;> dsimp only <;> exact ih (exists_isCode_of_cons h (by rw [hkind]; rfl)) _

theorem endsRow_append (h : ∃ p ∈ ps, p.kind.isCode = true) (rest : List Piece) :
    endsRow (ps ++ rest) = endsRow ps := by
  induction ps with
  | nil => simp at h
  | cons p ps ih =>
    rw [List.cons_append, endsRow, endsRow]
    cases hkind : p.kind <;> dsimp only
    exact ih (exists_isCode_of_cons h (by rw [hkind]; rfl))

end

variable (l : Layout) (p : Piece) {qs rs : List Piece}

/-- Of the rest of a source, a piece sees where its next code is indented, and whether the row ends. -/
theorem take_congr (hindent : nextIndent 0 qs = nextIndent 0 rs) (hrow : endsRow qs = endsRow rs) :
    l.take p qs = l.take p rs := by
  simp only [take, takeComment, takeCode, suite?, hindent, hrow]

/-- No colon ends an import statement. -/
theorem suite?_of_inImport {l : Layout} (h : l.inImport = true) (rest : List Piece) :
    l.suite? rest = none := by
  cases hsuite : l.suite? rest with
  | none => rfl
  | some cases =>
    have himport := not_isImport_of_suite? hsuite l.depth default
    rw [isImport_concat, if_neg (tokens_ne_nil_of_inImport h), h] at himport
    cases himport

theorem takeCode_of_inImport {l : Layout} (h : l.inImport = true) (p : Piece)
    (qs rs : List Piece) : l.takeCode p qs = l.takeCode p rs := by
  have hempty : l.tokens.isEmpty = false := by
    simpa using tokens_ne_nil_of_inImport h
  have hsuite : ∀ brackets rest,
      { l with tokens := (p :: l.tokens).drop 1, brackets }.suite? rest = none := fun _ rest =>
    suite?_of_inImport ((inImport_of_tokens_eq rfl).trans h) rest
  simp only [takeCode, hempty, Bool.false_eq_true, if_false, hsuite]

/-- **What stands in an import statement is read alike, whatever follows,** and so is a word that
starts one. -/
theorem take_of_inImport (h : l.inImport = true ∨ p.isOneOf ["import", "from"] = true)
    (qs rs : List Piece) : l.take p qs = l.take p rs := by
  rcases h with h | h
  · have hempty : l.tokens.isEmpty = false := by
      simpa using tokens_ne_nil_of_inImport h
    have hcomment : l.takeComment p qs = l.takeComment p rs := by
      simp [takeComment, hempty]
    rw [take, take, hcomment, takeCode_of_inImport h p qs rs]
  · have hkind := Piece.kind_of_isOneOf h
    have hmark : p.isMark ":" = false := by simp [Piece.isMark, hkind]
    simp [take, takeCode, hkind, hmark]

/-- What a piece does to import statements: it is passed over or becomes a token, or the statement that
is being read ends. -/
theorem importTokens_take (rest : List Piece) :
    importTokens (l.take p rest).1 = [] ∧
        ((l.take p rest).2.tokens = l.tokens ∨ (l.take p rest).2.tokens = p :: l.tokens) ∨
      importTokens (l.take p rest).1 = (if l.inImport then [l.tokens.reverse] else []) ∧
        (l.take p rest).2.tokens = [] := by
  have htaken := taken_take l p rest
  rw [importTokens]
  generalize (l.take p rest).1.filterMap Node.statement? = ended at htaken ⊢
  generalize (l.take p rest).2 = l' at htaken ⊢
  generalize htokens : l'.tokens = tokens at htaken
  cases htaken with
  | pass => exact .inl ⟨rfl, .inl rfl⟩
  | stop depth =>
    refine .inr ⟨?_, rfl⟩
    rw [List.filter_cons, isImport_reverse]
    cases l.inImport <;> rfl
  | push => exact .inl ⟨rfl, .inr rfl⟩
  | header depth himport =>
    have hnot : l.inImport = false := by
      by_cases hempty : l.tokens = []
      · exact inImport_of_isEmpty hempty
      · rwa [isImport_concat, if_neg hempty] at himport
    refine .inr ⟨?_, rfl⟩
    rw [List.filter_cons, himport, hnot]
    rfl

/-! ### Two rests -/

variable {l p}

/-- Where no import statement is read and none starts, none ends. -/
theorem take_of_not_inImport (hl : l.inImport = false)
    (hp : p.isOneOf ["import", "from"] = false) (rest : List Piece) :
    importTokens (l.take p rest).1 = [] ∧ (l.take p rest).2.inImport = false := by
  rcases importTokens_take l p rest with ⟨hnone, htokens | htokens⟩ | ⟨hended, htokens⟩
  · exact ⟨hnone, (inImport_of_tokens_eq htokens).trans hl⟩
  · refine ⟨hnone, (inImport_of_tokens_eq_cons htokens).trans ?_⟩
    rw [hl, hp, ite_self]
  · rw [hl] at hended
    exact ⟨hended, inImport_of_isEmpty htokens⟩

theorem run_of_not_inImport {l : Layout} (hl : l.inImport = false) {ps : List Piece}
    (hps : ∀ p ∈ ps, p.isOneOf ["import", "from"] = false) (rest : List Piece) :
    importTokens (l.run ps rest).1 = [] ∧ (l.run ps rest).2.inImport = false := by
  induction ps generalizing l with
  | nil => exact ⟨rfl, hl⟩
  | cons p ps ih =>
    obtain ⟨hp, hps⟩ := List.forall_mem_cons.1 hps
    obtain ⟨hnone, hnext⟩ := take_of_not_inImport hl hp (ps ++ rest)
    obtain ⟨hrun, hend⟩ := ih hnext hps
    rw [run_cons, importTokens_append, hnone, hrun]
    exact ⟨rfl, hend⟩

/-- **The import statements of a beginning do not depend on the rest,** and the layout stands at its
end where it stands in front of any other rest, unless there is no import statement either way. -/
theorem importTokens_run_eq (l : Layout) (ps qs rs : List Piece) :
    importTokens (l.run ps qs).1 = importTokens (l.run ps rs).1 ∧
      ((l.run ps qs).2 = (l.run ps rs).2 ∨
        (l.run ps qs).2.inImport = false ∧ (l.run ps rs).2.inImport = false) := by
  induction ps generalizing l with
  | nil => exact ⟨rfl, .inl rfl⟩
  | cons p ps ih =>
    by_cases hsame : l.take p (ps ++ qs) = l.take p (ps ++ rs)
    · obtain ⟨hrun, hend⟩ := ih (l.take p (ps ++ rs)).2
      rw [run_cons, run_cons, hsame, importTokens_append, importTokens_append, hrun]
      exact ⟨rfl, hend⟩
    -- The piece has seen the rest, so there is no code between the two.
    have himport : ¬ (l.inImport = true ∨ p.isOneOf ["import", "from"] = true) := fun h =>
      hsame (take_of_inImport l p h _ _)
    have hcode : ¬ ∃ p ∈ ps, p.kind.isCode = true := fun h =>
      hsame (take_congr l p (by rw [nextIndent_append h, nextIndent_append h])
        (by rw [endsRow_append h, endsRow_append h]))
    rw [not_or, Bool.not_eq_true, Bool.not_eq_true] at himport
    have hps : ∀ q ∈ p :: ps, q.isOneOf ["import", "from"] = false := by
      refine List.forall_mem_cons.2 ⟨himport.2, fun q hq => ?_⟩
      rw [Bool.eq_false_iff]
      exact fun hword => hcode ⟨q, hq, by rw [Piece.kind_of_isOneOf hword]; rfl⟩
    obtain ⟨hqs, hqsEnd⟩ := run_of_not_inImport himport.1 hps qs
    obtain ⟨hrs, hrsEnd⟩ := run_of_not_inImport himport.1 hps rs
    exact ⟨by rw [hqs, hrs], .inr ⟨hqsEnd, hrsEnd⟩⟩

/-- The import statements of the rest of a source: the one that is being read goes on with tokens of
the rest, and the others are made of such tokens. -/
theorem exists_importTokens_nodesFrom (l : Layout) (qs : List Piece) :
    ∃ more rest, more ⊆ qs ∧ (∀ ts ∈ rest, ts ≠ [] ∧ ts ⊆ qs) ∧
      importTokens (l.nodesFrom qs) =
        (if l.inImport then [l.tokens.reverse ++ more] else []) ++ rest := by
  induction qs generalizing l with
  | nil => exact ⟨[], [], by simp, by simp, by simp [nodesFrom, importTokens_close]⟩
  | cons q qs ih =>
    obtain ⟨more, rest, hmore, hrest, hnodes⟩ := ih (l.take q qs).2
    have hmore' : more ⊆ q :: qs := List.subset_cons_of_subset q hmore
    have hrest' : ∀ ts ∈ rest, ts ≠ [] ∧ ts ⊆ q :: qs := fun ts hts =>
      ⟨(hrest ts hts).1, List.subset_cons_of_subset q (hrest ts hts).2⟩
    rw [nodesFrom_cons, importTokens_append, hnodes]
    rcases importTokens_take l q qs with ⟨hnone, htokens | htokens⟩ | ⟨hended, htokens⟩
    · refine ⟨more, rest, hmore', hrest', ?_⟩
      rw [hnone, inImport_of_tokens_eq htokens, htokens, List.nil_append]
    · rw [hnone, inImport_of_tokens_eq_cons htokens, htokens, List.nil_append]
      by_cases hempty : l.tokens = []
      · -- the piece is the first token of a statement
        rw [if_pos hempty, hempty, inImport_of_isEmpty hempty]
        split
        · refine ⟨[], (q :: more) :: rest, by simp, List.forall_mem_cons.2 ⟨?_, hrest'⟩, rfl⟩
          exact ⟨List.cons_ne_nil q more, List.cons_subset_cons q hmore⟩
        · exact ⟨[], rest, by simp, hrest', rfl⟩
      · refine ⟨q :: more, rest, List.cons_subset_cons q hmore, hrest', ?_⟩
        rw [if_neg hempty, List.reverse_cons, List.append_assoc, List.singleton_append]
    · refine ⟨[], rest, by simp, hrest', ?_⟩
      rw [hended, inImport_of_isEmpty htokens, List.append_nil]
      rfl

end Layout

/-! ### Cutting a source off -/

theorem getLastD_mem {ts : List Piece} (h : ts ≠ []) : ts.getLastD default ∈ ts := by
  rw [List.getLastD_eq_getLast?, List.getLast?_eq_some_getLast h, Option.getD_some]
  exact List.getLast_mem h

section
variable {text : List Char} {ps qs : List Piece}

/-- The pieces in front of a cut start before it and stop no later than there, and those behind it
start no earlier than there and stop after it. -/
theorem offset_of_pieces (h : pieces text = ps ++ qs) :
    (∀ p ∈ ps, p.start.offset < (written ps).length ∧ p.stop.offset ≤ (written ps).length) ∧
      ∀ q ∈ qs, (written ps).length ≤ q.start.offset ∧ (written ps).length < q.stop.offset := by
  have hroom : ∀ p ∈ ps ++ qs, p.start.offset < p.stop.offset := fun p hp =>
    (start_lt_stop_of_mem_pieces (h ▸ hp)).1
  constructor
  · intro p hp
    have hlt := hroom p (List.mem_append_left qs hp)
    obtain ⟨before, after, rfl⟩ := List.append_of_mem hp
    rw [List.append_assoc, List.cons_append] at h
    have hstop : p.stop.offset = (written before ++ p.text).length := by
      rw [(start_of_pieces h).2]
      rfl
    rw [written_append, written_cons, ← List.append_assoc, List.length_append]
    omega
  · intro q hq
    have hlt := hroom q (List.mem_append_right ps hq)
    obtain ⟨before, after, rfl⟩ := List.append_of_mem hq
    rw [← List.append_assoc] at h
    have hstart : q.start.offset = (written ps).length + (written before).length := by
      rw [(start_of_pieces h).1, written_append, ← List.length_append]
      rfl
    omega

end

/-- A token of a node starts before the node stops. -/
theorem Node.start_lt_stop_of_mem {text : List Char} {n : Node} (hn : n ∈ nodes text) {p : Piece}
    (hp : p ∈ n.pieces) : p.start.offset < n.stop.offset := by
  have hne := Node.pieces_ne_nil hn
  have hroom := (start_lt_stop_of_mem_pieces (mem_pieces_of_mem_nodes hn hp)).1
  obtain ⟨front, hfront⟩ :=
    List.getLast?_eq_some_iff.1 (List.getLast?_eq_some_getLast hne)
  have hstop : n.stop = (n.pieces.getLast hne).stop := by
    rw [Node.stop, List.getLastD_eq_getLast?, List.getLast?_eq_some_getLast hne, Option.getD_some]
  rw [hstop]
  generalize n.pieces.getLast hne = last at hfront
  have hpair := (pairwise_flatMap_nodes text).1 n hn
  rw [hfront] at hpair hp
  rcases List.mem_append.1 hp with hp | hp
  · have hle := (List.pairwise_append.1 hpair).2.2 p hp last List.mem_cons_self
    have hlast : last ∈ n.pieces := hfront ▸ by simp
    have hlastRoom := (start_lt_stop_of_mem_pieces (mem_pieces_of_mem_nodes hn hlast)).1
    omega
  · rwa [List.mem_singleton.1 hp] at hroom ⊢

section
variable {text : List Char} {front behind rest : List Piece} {ts : List Piece}

/-- **An import statement with more behind it is settled:** when a token behind it stands in the
beginning, the beginning has it however it goes on. -/
theorem mem_importTokens_beginning (h : pieces text = front ++ behind) (rest : List Piece)
    (hts : ts ∈ importTokens (nodes text)) {n : Node} (hn : n ∈ nodes text) {k : Piece}
    (hkn : k ∈ n.pieces) (hk : k ∈ front)
    (hbehind : (ts.getLastD default).stop.offset ≤ k.start.offset) :
    ts ∈ importTokens (Layout.initial.nodesFrom (front ++ rest)) := by
  obtain ⟨hfront, hrest⟩ := offset_of_pieces h
  have hkroom := (start_lt_stop_of_mem_pieces (mem_pieces_of_mem_nodes hn hkn)).1
  obtain ⟨s, hs, himport, rfl⟩ := mem_importTokens_iff.1 hts
  have hsroom := (Node.start_lt_stop hs).1
  have hstop : (Node.statement s).stop = (s.tokens.getLastD default).stop := rfl
  rw [← hstop] at hbehind
  obtain ⟨hrun, -⟩ := Layout.importTokens_run_eq .initial front behind rest
  have hread := Layout.initial.sublist_run front behind
  have hmem : k ∈ (nodes text).flatMap Node.pieces := List.mem_flatMap.2 ⟨n, hn, hkn⟩
  rw [Layout.nodesFrom_append, importTokens_append, ← hrun]
  rw [nodes, h, Layout.nodesFrom_append, importTokens_append] at hts
  rw [nodes, h, Layout.nodesFrom_append, List.flatMap_append] at hmem
  generalize (Layout.initial.run front behind).1 = ended at hread hts hmem ⊢
  generalize (Layout.initial.run front behind).2 = l at hread hts hmem
  obtain ⟨more, others, -, hothers, hopen⟩ := l.exists_importTokens_nodesFrom behind
  rw [hopen] at hts
  rcases List.mem_append.1 hts with hended | hts
  · exact List.mem_append_left _ hended
  exfalso
  rcases List.mem_append.1 hts with hts | hts
  · -- the statement that is being read at the end of the beginning has no token behind it there
    cases hin : l.inImport with
    | false => simp [hin] at hts
    | true =>
      have htokens : s.tokens = l.tokens.reverse ++ more := by simpa [hin] using hts
      obtain ⟨first, others, hfirst⟩ : ∃ first others, l.tokens.reverse = first :: others :=
        List.exists_cons_of_ne_nil (by simpa using Layout.tokens_ne_nil_of_inImport hin)
      have hstart : (Node.statement s).start = first.start := by
        rw [Node.start_eq, Node.pieces, htokens, hfirst]
        rfl
      rcases List.mem_append.1 hmem with hmem | hmem
      · have hpair := ((pairwise_pieces text).sublist
          (h ▸ List.sublist_append_left front behind)).sublist hread
        have hle := (List.pairwise_append.1 hpair).2.2 k hmem first (by simp [hfirst])
        rw [hstart] at hsroom
        omega
      · rcases List.mem_append.1 ((Layout.sublist_nodesFrom l behind).subset hmem) with hmem | hmem
        · have hinside := Node.start_lt_stop_of_mem hs (p := k)
            (by rw [Node.pieces, htokens]; exact List.mem_append_left _ hmem)
          omega
        · have hstart := (hrest k hmem).1
          have hstart' := (hfront k hk).1
          omega
  · obtain ⟨hne, hsubset⟩ := hothers _ hts
    have hlast := (hrest _ (hsubset (getLastD_mem hne))).2
    have hstart := (hfront k hk).1
    rw [← hstop] at hlast
    omega

/-- The import statements of a beginning are import statements of the source, of which the last may go
on. -/
theorem exists_importTokens_prefix (behind : List Piece)
    (hrest : ∀ l : Layout, l.nodesFrom rest = l.close.1)
    (hts : ts ∈ importTokens (Layout.initial.nodesFrom (front ++ rest))) :
    ∃ more, ts ++ more ∈ importTokens (Layout.initial.nodesFrom (front ++ behind)) := by
  obtain ⟨hrun, hend⟩ := Layout.importTokens_run_eq .initial front behind rest
  rw [Layout.nodesFrom_append, importTokens_append, hrest, ← hrun] at hts
  rw [Layout.nodesFrom_append, importTokens_append]
  rcases List.mem_append.1 hts with hts | hts
  · exact ⟨[], by rw [List.append_nil]; exact List.mem_append_left _ hts⟩
  · rw [Layout.importTokens_close] at hts
    rcases hend with hsame | ⟨-, hnot⟩
    · obtain ⟨more, others, -, -, hopen⟩ :=
        (Layout.initial.run front behind).2.exists_importTokens_nodesFrom behind
      cases hin : (Layout.initial.run front rest).2.inImport with
      | false => simp [hin] at hts
      | true =>
        rw [hin, if_pos rfl, List.mem_singleton] at hts
        refine ⟨more, List.mem_append_right _ ?_⟩
        rw [hopen, hsame, hin, if_pos rfl, hts]
        exact List.mem_append_left _ List.mem_cons_self
    · simp [hnot] at hts

end

/-- **A source and a beginning of it that ends between two pieces have pieces in common:** the
beginning closes at their end, and all pieces of the source that stop in the beginning are among them,
save for a stray backslash. -/
theorem exists_common_pieces {u v : List Char} {ps qs : List Piece}
    (h : pieces (u ++ v) = ps ++ qs) (hu : written ps = u) :
    ∃ front behind rest, pieces (u ++ v) = front ++ behind ∧ pieces u = front ++ rest ∧
      (∀ l : Layout, l.nodesFrom rest = l.close.1) ∧
      ∀ p ∈ pieces (u ++ v), p.stop.offset ≤ u.length → p ∈ front ∨ p.isStray = true := by
  have hin : ∀ p ∈ pieces (u ++ v), p.stop.offset ≤ u.length → p ∈ ps := by
    intro p hp hle
    rcases List.mem_append.1 (h ▸ hp) with hp | hp
    · exact hp
    · have hlt := ((offset_of_pieces h).2 p hp).2
      rw [hu] at hlt
      omega
  rcases pieces_append h hu with hsame | ⟨front, p, rfl, hkind, htext, hcut⟩
  · exact ⟨ps, qs, [], h, by rw [hsame, List.append_nil], fun _ => rfl,
      fun p hp hle => .inl (hin p hp hle)⟩
  · refine ⟨front, p :: qs, _, by simp [h], hcut, fun _ => rfl, fun q hq hle => ?_⟩
    rcases List.mem_append.1 (hin q hq hle) with hq | hq
    · exact .inl hq
    · rw [List.mem_singleton.1 hq]
      exact .inr (by simp [Piece.isStray, Piece.isMark, hkind, htext])

end Source
end CompletionPrompt
