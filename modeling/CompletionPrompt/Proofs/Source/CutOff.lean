import CompletionPrompt.Proofs.Source.Down
import CompletionPrompt.Proofs.Source.ImportSpans

/-!
# Import statements of a source that is cut off

A source is cut off at a place where a node starts or stops, and read again. Both sources are without
errors. They agree on import statements when there is a token such that no import statement of the
longer source stands between it and the end of the shorter one (`IsClearing`).

What stops before the token is settled by the time that the token is read, so the shorter source has
it (`mem_beginning`). The other way round, an import statement of the shorter source has the keyword
`import` with something behind it. So the longer source has the keyword too, and an import statement
that it stands in (`exists_import_of_mem_beginning`). That one stops before the token, so the shorter
source has it, and two import statements of one source with one keyword are the same
(`mem_of_mem_beginning`).

A line feed in front of a source adds no import statement (`importSpans_cons_feed_eq_nil`).
-/

namespace CompletionPrompt
namespace Source

section
variable [Parser] [LawfulParser] [GrammaticalParser] {text : List Char} {n k : Tree}

/-- Of the tokens of an import statement the last takes room, and the others stand before it. -/
theorem exists_tokens_append (hfree : (parse text).ErrorFree) (hn : n ∈ (parse text).nodes)
    (himport : n.isImport = true) :
    ∃ front last, n.tokens = front ++ [last] ∧ last.start.offset < last.stop.offset ∧
      last.stop = n.stop ∧
      ∀ k ∈ front, k.start.offset ≤ k.stop.offset ∧ k.stop.offset ≤ last.start.offset := by
  obtain ⟨last, hlast, hstop, hne, -⟩ :=
    exists_last_token (GrammaticalParser.grammatical hfree).toKeepsEdgeRules hn himport
  obtain ⟨front, hfront⟩ := List.getLast?_eq_some_iff.1 hlast
  have hin : ∀ m ∈ n.nodes, m.StandsIn text := fun m hm =>
    LawfulParser.standsIn (Tree.nodes_subset hn hm)
  have hordered := Tree.IsNested.pairwise_tokens fun m hm => (hin m hm).toIsNested
  rw [hfront] at hordered
  refine ⟨front, last, hfront, Tree.room_of_textIn_ne_nil hne, hstop, fun k hk => ⟨?_, ?_⟩⟩
  · have hkn : k ∈ n.tokens := hfront ▸ List.mem_append_left _ hk
    exact (hin k (Tree.mem_tokens_iff.1 hkn).1).le.1
  · exact (List.pairwise_append.1 hordered).2.2 k hk last List.mem_cons_self

/-- A token of an import statement starts before the import statement stops. -/
theorem start_lt_stop_of_mem_tokens (hfree : (parse text).ErrorFree) (hn : n ∈ (parse text).nodes)
    (himport : n.isImport = true) (hk : k ∈ n.tokens) : k.start.offset < n.stop.offset := by
  obtain ⟨front, last, hfront, hroom, hstop, hbefore⟩ := exists_tokens_append hfree hn himport
  rw [← hstop]
  rw [hfront] at hk
  rcases List.mem_append.1 hk with hk | hk
  · have hplaces := hbefore k hk
    omega
  · rwa [List.mem_singleton.1 hk]

/-- Import statements with a token in common are one import statement. -/
theorem eq_of_mem_tokens {m : Tree} (hfree : (parse text).ErrorFree) (hn : n ∈ (parse text).nodes)
    (hm : m ∈ (parse text).nodes) (hni : n.isImport = true) (hmi : m.isImport = true)
    (hkn : k ∈ n.tokens) (hkm : k ∈ m.tokens) : n = m := by
  have hnested : ∀ {n : Tree}, n ∈ (parse text).nodes → ∀ m ∈ n.nodes, m.IsNested := fun hn m hm =>
    (LawfulParser.standsIn (Tree.nodes_subset hn hm)).toIsNested
  have hnstart := (Tree.IsNested.le_of_mem_nodes (hnested hn) (Tree.mem_tokens_iff.1 hkn).1).1
  have hmstart := (Tree.IsNested.le_of_mem_nodes (hnested hm) (Tree.mem_tokens_iff.1 hkm).1).1
  have hnstop := start_lt_stop_of_mem_tokens hfree hn hni hkn
  have hmstop := start_lt_stop_of_mem_tokens hfree hm hmi hkm
  by_contra hne
  rcases apart_of_isImport hn hm hni hmi hne with h | h <;> omega

end

/-- A token that is read before a source is cut off. It takes room, and no import statement stands
between its start and the end. -/
structure IsClearing [Parser] (u v : List Char) (k : Tree) : Prop where
  mem : k ∈ (parse (u ++ v)).tokens
  room : k.start.offset < k.stop.offset
  read : k.stop.offset ≤ u.length
  clear : ∀ n ∈ (parse (u ++ v)).nodes, n.isImport = true →
    n.stop.offset ≤ k.start.offset ∨ u.length ≤ n.start.offset

section
variable [Parser] {u v : List Char} {n k : Tree}

/-- An import statement that stops before the end stops before the token. -/
theorem IsClearing.stop_le [LawfulParser] (h : IsClearing u v k) (hn : n ∈ (parse (u ++ v)).nodes)
    (himport : n.isImport = true) (hstart : n.start.offset < u.length) :
    n.stop.offset ≤ k.start.offset :=
  (h.clear n hn himport).resolve_right (Nat.not_le.2 hstart)

/-- What is read of an import statement in front of the token, the shorter source has. -/
theorem mem_beginning [LawfulParser] [ForwardParser] (hwhole : (parse (u ++ v)).ErrorFree)
    (hu : (parse u).ErrorFree) (hedge : (parse (u ++ v)).HasEdge u.length) (hk : IsClearing u v k)
    (hn : n ∈ (parse (u ++ v)).nodes) (himport : n.isImport = true)
    (hstart : n.start.offset < u.length) : n ∈ (parse u).nodes :=
  ForwardParser.import_settled hwhole hu hedge hn himport hk.mem (hk.stop_le hn himport hstart)
    hk.room hk.read

/-- An import statement of the shorter source has a token in common with one of the longer source that
starts in it. -/
theorem exists_import_of_mem_beginning [LawfulParser] [GrammaticalParser] [ForwardParser]
    (hwhole : (parse (u ++ v)).ErrorFree) (hu : (parse u).ErrorFree)
    (hedge : (parse (u ++ v)).HasEdge u.length) (hn : n ∈ (parse u).nodes)
    (himport : n.isImport = true) :
    ∃ w ∈ n.tokens, ∃ m ∈ (parse (u ++ v)).nodes, m.isImport = true ∧ w ∈ m.tokens ∧
      m.start.offset < u.length := by
  obtain ⟨w, hwfront, hword⟩ := (GrammaticalParser.grammatical hu).import_word n hn himport
  obtain ⟨front, last, hfront, hroom, hstop, hbefore⟩ := exists_tokens_append hu hn himport
  rw [hfront, List.dropLast_concat] at hwfront
  have htokens : ∀ {x}, x ∈ n.tokens → x ∈ (parse u).tokens :=
    fun hx => (Tree.tokens_sublist_of_mem_nodes hn).subset hx
  have hwn : w ∈ n.tokens := hfront ▸ List.mem_append_left _ hwfront
  have hlast : last ∈ n.tokens := hfront ▸ by simp
  obtain ⟨hwroom, hwlast⟩ := hbefore w hwfront
  -- the word is settled, since the last token stands behind it
  have hwhole' := ForwardParser.word_settled hwhole hu hedge (htokens hwn) hword (htokens hlast)
    hwlast hroom
  obtain ⟨m, hm, hmi, w', hw', hlabel⟩ :=
    (GrammaticalParser.grammatical hwhole).word_import w hwhole' hword
  obtain rfl := Tree.eq_of_isToken (Tree.mem_tokens_iff.1 hw').2 (Tree.mem_tokens_iff.1 hwhole').2
    hlabel
  refine ⟨w', hwn, m, hm, hmi, hw', ?_⟩
  have hmstart := (Tree.IsNested.le_of_mem_nodes (fun x hx =>
    (LawfulParser.standsIn (Tree.nodes_subset hm hx)).toIsNested) (Tree.mem_tokens_iff.1 hw').1).1
  have hnstop := (LawfulParser.standsIn hn).le.2
  rw [hstop] at hroom
  omega

/-- An import statement of the shorter source is one of the longer source. -/
theorem mem_of_mem_beginning [LawfulParser] [GrammaticalParser] [ForwardParser]
    (hwhole : (parse (u ++ v)).ErrorFree) (hu : (parse u).ErrorFree)
    (hedge : (parse (u ++ v)).HasEdge u.length) (hk : IsClearing u v k) (hn : n ∈ (parse u).nodes)
    (himport : n.isImport = true) : n ∈ (parse (u ++ v)).nodes := by
  obtain ⟨w, hwn, m, hm, hmi, hwm, hstart⟩ :=
    exists_import_of_mem_beginning hwhole hu hedge hn himport
  have hmu := mem_beginning hwhole hu hedge hk hm hmi hstart
  rwa [eq_of_mem_tokens hu hn hmu himport hmi hwn hwm]

/-- **A source that is cut off has the import statements that stop in it,** each with its span. -/
theorem importSpans_beginning [LawfulParser] [GrammaticalParser] [ForwardParser]
    (hwhole : (parse (u ++ v)).ErrorFree) (hu : (parse u).ErrorFree)
    (hedge : (parse (u ++ v)).HasEdge u.length) (hk : IsClearing u v k) :
    importSpans .wholeSource u =
      (importSpans .wholeSource (u ++ v)).filter fun span =>
        Text.PlaceLe span.stop (Text.endOf u) := by
  have hordered : ∀ text, (importSpans .wholeSource text).Pairwise
      fun a b => a.le b = true ∧ a ≠ b := fun text => pairwise_setInOrder totalOrder_spans _
  have hstops : ∀ {n : Tree}, n ∈ (parse (u ++ v)).nodes →
      (Text.PlaceLe n.span.stop (Text.endOf u) ↔ n.stop.offset ≤ u.length) := fun hn =>
    (LawfulParser.standsIn hn).placeLe_iff rfl
  have hkept := (hordered (u ++ v)).sublist
    (List.filter_sublist (p := fun span => Text.PlaceLe span.stop (Text.endOf u)))
  refine List.Sublist.antisymm
    (sublist_of_subset totalOrder_spans (hordered u) hkept fun span hspan => ?_)
    (sublist_of_subset totalOrder_spans hkept (hordered u) fun span hspan => ?_)
  · obtain ⟨n, hn, rfl⟩ := mem_importSpans_iff.1 hspan
    obtain ⟨hn, himport⟩ := mem_imports_wholeSource.1 hn
    have hmem := mem_of_mem_beginning hwhole hu hedge hk hn himport
    refine List.mem_filter.2 ⟨mem_importSpans_iff.2
      ⟨n, mem_imports_wholeSource.2 ⟨hmem, himport⟩, rfl⟩, decide_eq_true ((hstops hmem).2 ?_)⟩
    exact (LawfulParser.standsIn hn).le.2
  · obtain ⟨hspan, hstop⟩ := List.mem_filter.1 hspan
    obtain ⟨n, hn, rfl⟩ := mem_importSpans_iff.1 hspan
    obtain ⟨hn, himport⟩ := mem_imports_wholeSource.1 hn
    have hstop := (hstops hn).1 (of_decide_eq_true hstop)
    have hroom := LawfulParser.import_room hn himport
    exact mem_importSpans_iff.2 ⟨n, mem_imports_wholeSource.2
      ⟨mem_beginning hwhole hu hedge hk hn himport (Nat.lt_of_lt_of_le hroom hstop), himport⟩, rfl⟩

/-- A line feed in front of a source without import statements adds none. -/
theorem importSpans_cons_feed_eq_nil [ForwardParser] {s : List Char} {scope : Scope}
    (hs : (parse ('\n' :: s)).ErrorFree) (h : importSpans scope s = []) :
    importSpans scope ('\n' :: s) = [] := by
  rw [List.eq_nil_iff_forall_not_mem] at h ⊢
  intro span hspan
  obtain ⟨n, hn, rfl⟩ := mem_importSpans_iff.1 hspan
  rw [ForwardParser.feed_settled hs, Tree.imports_down] at hn
  obtain ⟨m, hm, rfl⟩ := List.mem_map.1 hn
  exact h m.span (mem_importSpans_iff.2 ⟨m, hm, rfl⟩)

end

end Source
end CompletionPrompt
