import CompletionPrompt.Proofs.Source.Laws
import CompletionPrompt.Source.Imports

/-!
# A tree one row further down

Moving a tree down moves every node of it down and changes nothing else, so what is read off a tree
moves down with it: its nodes, its tokens, the text that a node is written with in a source with one
more line feed in front. The rules of the grammar hold of a tree when they hold of it one row further
down (`Tree.Grammatical.of_down`).
-/

namespace CompletionPrompt
namespace Source

theorem Place.down_injective : Function.Injective Place.down := by
  rintro ⟨_, _, _⟩ ⟨_, _, _⟩ h
  simpa [down] using h

theorem Label.down_injective : Function.Injective Label.down := by
  rintro ⟨_, _, _, start, stop, _⟩ ⟨_, _, _, start', stop', _⟩ h
  simp only [down, Label.mk.injEq] at h ⊢
  obtain ⟨hkind, hnamed, hfield, hstart, hstop, herror⟩ := h
  exact ⟨hkind, hnamed, hfield, Place.down_injective hstart, Place.down_injective hstop, herror⟩

namespace Tree

variable (t : Tree)

theorem downAll_eq_map (ts : List Tree) : downAll ts = ts.map down := by
  induction ts with
  | nil => rfl
  | cons t ts ih => rw [downAll, ih, List.map_cons]

@[simp] theorem label_down : t.down.label = t.label.down := by
  cases t
  rfl

@[simp] theorem children_down : t.down.children = t.children.map down := by
  rw [← downAll_eq_map]
  cases t
  rfl

@[simp] theorem start_down : t.down.start = t.start.down := by
  rw [start, label_down]
  rfl

@[simp] theorem stop_down : t.down.stop = t.stop.down := by
  rw [stop, label_down]
  rfl

theorem nodesOfAll_map_down {ts : List Tree} (h : ∀ t ∈ ts, t.down.nodes = t.nodes.map down) :
    nodesOfAll (ts.map down) = (nodesOfAll ts).map down := by
  rw [nodesOfAll_eq_flatMap, nodesOfAll_eq_flatMap, List.flatMap_map, List.map_flatMap,
    List.flatMap_def, List.flatMap_def]
  exact congrArg _ (List.map_congr_left h)

@[simp] theorem nodes_down : t.down.nodes = t.nodes.map down := by
  induction t using induction_children with
  | h t ih => rw [nodes_eq, nodes_eq, children_down, nodesOfAll_map_down ih, List.map_cons]

@[simp] theorem nodesOfAll_down (ts : List Tree) :
    nodesOfAll (ts.map down) = (nodesOfAll ts).map down :=
  nodesOfAll_map_down fun t _ => nodes_down t

/-! ### What does not change -/

@[simp] theorem isToken_down : t.down.isToken = t.isToken := by
  rw [isToken, children_down, List.isEmpty_map, isToken]

@[simp] theorem tokens_down : t.down.tokens = t.tokens.map down := by
  rw [tokens, nodes_down, List.filter_map, tokens]
  exact congrArg _ (List.filter_congr fun n _ => isToken_down n)

@[simp] theorem isImport_down : t.down.isImport = t.isImport := by
  rw [isImport, label_down]
  rfl

@[simp] theorem isModule_down : t.down.isModule = t.isModule := by
  rw [isModule, label_down]
  rfl

@[simp] theorem isImportWord_down : t.down.isImportWord = t.isImportWord := by
  rw [isImportWord, label_down]
  rfl

@[simp] theorem isFunction_down : t.down.isFunction = t.isFunction := by
  rw [isFunction, label_down]
  rfl

@[simp] theorem isDecorated_down : t.down.isDecorated = t.isDecorated := by
  rw [isDecorated, label_down]
  rfl

@[simp] theorem holdsImport_down : t.down.holdsImport = t.holdsImport := by
  rw [holdsImport, nodes_down, List.any_map, holdsImport]
  exact congrArg (List.any _) (funext fun n => isImport_down n)

@[simp] theorem textIn_down (text : List Char) : t.down.textIn ('\n' :: text) = t.textIn text := by
  simp [textIn, Place.down]

theorem imports_down (scope : Scope) : t.down.imports scope = (t.imports scope).map down := by
  have hfilter : ∀ ts : List Tree, (ts.map down).filter isImport = (ts.filter isImport).map down :=
    fun ts => by
      rw [List.filter_map]
      exact congrArg _ (List.filter_congr fun n _ => isImport_down n)
  cases scope with
  | wholeSource => rw [imports, nodes_down, hfilter, imports]
  | topLevel =>
    have hmodule : isModule ∘ down = isModule := funext isModule_down
    simp only [imports, nodes_down, List.filter_map, hmodule, List.flatMap_map, children_down,
      hfilter, List.map_flatMap]

/-! ### Rules -/

variable {t}

theorem mem_nodes_down {n : Tree} (h : n ∈ t.nodes) : n.down ∈ t.down.nodes := by
  rw [nodes_down]
  exact List.mem_map_of_mem h

theorem ErrorFree.of_down (h : t.down.ErrorFree) : t.ErrorFree := fun n hn => by
  have hnode := h n.down (mem_nodes_down hn)
  rwa [label_down] at hnode

section
variable {text : List Char}

theorem KeepsEdgeRules.of_down (h : t.down.KeepsEdgeRules ('\n' :: text)) :
    t.KeepsEdgeRules text where
  import_first n hn himport := by
    obtain ⟨k, hk, hstart, htext⟩ := h.import_first n.down (mem_nodes_down hn) (by simpa)
    rw [children_down, List.head?_map] at hk
    obtain ⟨k, hkmem, rfl⟩ := Option.map_eq_some_iff.1 hk
    rw [start_down, start_down] at hstart
    exact ⟨k, hkmem, Place.down_injective hstart, by simpa using htext⟩
  import_last n hn himport := by
    obtain ⟨k, hk, hstop, hlast⟩ := h.import_last n.down (mem_nodes_down hn) (by simpa)
    rw [tokens_down, List.getLast?_map] at hk
    obtain ⟨k, hkmem, rfl⟩ := Option.map_eq_some_iff.1 hk
    rw [stop_down, stop_down] at hstop
    rw [label_down, textIn_down] at hlast
    exact ⟨k, hkmem, Place.down_injective hstop, hlast⟩
  identifier n hn hkind := by
    have hword := h.identifier n.down (mem_nodes_down hn) (by rw [label_down]; exact hkind)
    rwa [textIn_down] at hword

end

theorem KeepsImportRules.of_down (h : t.down.KeepsImportRules) : t.KeepsImportRules where
  import_below n hn himport m hm := by
    have hbelow := h.import_below n.down (mem_nodes_down hn) (by simpa) m.down (by
      rw [children_down, nodesOfAll_down]
      exact List.mem_map_of_mem hm)
    rwa [isFunction_down, label_down] at hbelow
  import_word n hn himport := by
    obtain ⟨k, hk, hword⟩ := h.import_word n.down (mem_nodes_down hn) (by simpa)
    rw [tokens_down, ← List.map_dropLast] at hk
    obtain ⟨k, hkmem, rfl⟩ := List.mem_map.1 hk
    exact ⟨k, hkmem, by rwa [isImportWord_down] at hword⟩
  word_import k hk hword := by
    obtain ⟨n, hn, himport, m, hm, hlabel⟩ := h.word_import k.down (by
      rw [tokens_down]
      exact List.mem_map_of_mem hk) (by simpa)
    rw [nodes_down] at hn
    obtain ⟨n, hnmem, rfl⟩ := List.mem_map.1 hn
    rw [tokens_down] at hm
    obtain ⟨m, hmmem, rfl⟩ := List.mem_map.1 hm
    rw [label_down, label_down] at hlabel
    exact ⟨n, hnmem, by simpa using himport, m, hmmem, Label.down_injective hlabel⟩

theorem KeepsFunctionRules.of_down (h : t.down.KeepsFunctionRules) : t.KeepsFunctionRules where
  function_first n hn hfunction := by
    obtain ⟨k, hk, hfield, htoken, hroom⟩ := h.function_first n.down (mem_nodes_down hn) (by simpa)
    rw [children_down, List.head?_map] at hk
    obtain ⟨k, hkmem, rfl⟩ := Option.map_eq_some_iff.1 hk
    rw [label_down] at hfield
    rw [isToken_down] at htoken
    rw [start_down, stop_down] at hroom
    exact ⟨k, hkmem, hfield, htoken, Nat.lt_of_succ_lt_succ hroom⟩
  function_import n hn hfunction c hc hfield := by
    have hbelow := h.function_import n.down (mem_nodes_down hn) (by simpa) c.down (by
      rw [children_down]
      exact List.mem_map_of_mem hc) (by rw [label_down]; exact hfield)
    rwa [holdsImport_down] at hbelow
  expression_import n hn hkind := by
    have hbelow := h.expression_import n.down (mem_nodes_down hn) (by rw [label_down]; exact hkind)
    rwa [holdsImport_down] at hbelow
  unnamed_import n hn hnamed := by
    have hbelow := h.unnamed_import n.down (mem_nodes_down hn) (by rw [label_down]; exact hnamed)
    rwa [holdsImport_down] at hbelow

theorem KeepsDecoratorRules.of_down (h : t.down.KeepsDecoratorRules) : t.KeepsDecoratorRules where
  decorated_import n hn hdecorated c hc := by
    have hbelow := h.decorated_import n.down (mem_nodes_down hn) (by simpa) c.down (by
      rw [children_down, ← List.map_dropLast]
      exact List.mem_map_of_mem hc)
    rwa [holdsImport_down] at hbelow
  decorated_row n hn hdecorated m hm himport hle := by
    have hrow := h.decorated_row n.down (mem_nodes_down hn) (by simpa) m.down (mem_nodes_down hm)
      (by simpa) (by
        rw [stop_down, start_down]
        exact Nat.succ_le_succ hle)
    rw [stop_down, start_down] at hrow
    exact Nat.lt_of_succ_lt_succ hrow

/-- **A tree that keeps the rules one row further down keeps them where it is.** -/
theorem Grammatical.of_down {text : List Char} (h : t.down.Grammatical ('\n' :: text)) :
    t.Grammatical text where
  toKeepsEdgeRules := h.toKeepsEdgeRules.of_down
  toKeepsImportRules := h.toKeepsImportRules.of_down
  toKeepsFunctionRules := h.toKeepsFunctionRules.of_down
  toKeepsDecoratorRules := h.toKeepsDecoratorRules.of_down

end Tree
end Source
end CompletionPrompt
