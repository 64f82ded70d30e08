import CompletionPrompt.Proofs.Introspection.DriverPath

/-!
# The file that a module name stands for

The driver is started by a module name, and the interpreter finds the file of a module by reading
its dots as slashes (`moduleFile`). For a driver outside the working directory the name is the stem
of its file, started in its own directory (`moduleName_outside`); for one below it, the names of the
directories that lead there come first, with dots between them (`moduleName_inside`). A dot inside
one of these names is lost in that: it is read as a slash too. So the module name stands for the
driver exactly when the driver is outside the working directory or none of the directories on the
way has a dot in its name, `..` among them (`moduleFile_moduleName_iff`).
-/

namespace CompletionPrompt

namespace Introspection

/-- The dots of a module name as slashes. -/
def slashed (module : List Char) : List Char :=
  module.map fun c => if c = '.' then '/' else c

/-- The file that a module name stands for in a directory. -/
def moduleFile (directory : Path) (module : String) : Path :=
  directory.join (Path.ofChars (slashed module.toList ++ ".py".toList))

/-! ### Dots as slashes -/

theorem not_mem_slashed (module : List Char) : '.' ∉ slashed module := by
  intro h
  obtain ⟨c, -, hc⟩ := List.mem_map.1 h
  split at hc
  · cases hc
  · exact absurd hc ‹_›

theorem slashed_of_not_mem {module : List Char} (h : '.' ∉ module) : slashed module = module := by
  rw [slashed, List.map_congr_left (g := id) fun c hc => ?_, List.map_id]
  exact if_neg fun hdot : c = '.' => h (hdot ▸ hc)

/-- Names joined by dots become names joined by slashes. -/
theorem slashed_intercalate {names : List (List Char)} (h : ∀ name ∈ names, '.' ∉ name) :
    slashed (['.'].intercalate names) = ['/'].intercalate names := by
  induction names with
  | nil => rfl
  | cons name names ih =>
    have hname := slashed_of_not_mem (h name List.mem_cons_self)
    cases names with
    | nil => simpa using hname
    | cons next names =>
      have hrest := ih fun n hn => h n (List.mem_cons_of_mem _ hn)
      rw [List.intercalate_cons_of_ne_nil (List.cons_ne_nil next names),
        List.intercalate_cons_of_ne_nil (List.cons_ne_nil next names), ← hrest]
      simp only [slashed, List.map_append] at hname ⊢
      rw [hname]
      rfl

/-! ### The two ways to name a driver -/

section

variable {c : Config} {stem : List Char} {dir workingDir : Path} {below : List Path.Component}

/-- The driver stands behind the components of its directory. -/
theorem components_driver (h : c.DriverStem stem) (dir : Path) :
    (dir.join ⟨c.driverFileName⟩).components =
      dir.components ++ [.normal (String.ofList (stem ++ ".py".toList))] := by
  rw [h.path_eq, h.isName.components_join]

/-- A driver below the working directory is named by the directories that lead to it. -/
theorem moduleName_inside (h : c.DriverStem stem)
    (hbelow : workingDir.components ++ below = dir.components) :
    moduleName (dir.join ⟨c.driverFileName⟩) workingDir =
      (workingDir, ".".intercalate (below.map (·.text) ++ [String.ofList stem])) := by
  have hstrip : (dir.join ⟨c.driverFileName⟩).stripBase? workingDir =
      some (below ++ [.normal (String.ofList (stem ++ ".py".toList))]) := by
    rw [Path.stripBase?, components_driver h, ← hbelow, List.append_assoc,
      if_pos (List.isPrefixOf_iff_prefix.2 (List.prefix_append _ _)), List.drop_left]
  simp only [moduleName, hstrip, Option.getD_some, List.dropLast_concat, List.getLast?_concat,
    String.toList_ofList, h.stemOf_eq]
  exact if_neg (by simp)

/-- Another driver is named by its stem, and started where it is. -/
theorem moduleName_outside (h : c.DriverStem stem)
    (hbelow : ¬ workingDir.components <+: dir.components) :
    moduleName (dir.join ⟨c.driverFileName⟩) workingDir =
      (((dir.join ⟨c.driverFileName⟩).parent?).getD ⟨"."⟩, String.ofList stem) := by
  have hstrip : ((dir.join ⟨c.driverFileName⟩).stripBase? workingDir).getD [] = [] := by
    rw [Path.stripBase?, components_driver h]
    split
    · rename_i hprefix
      rcases List.prefix_concat_iff.1 (List.isPrefixOf_iff_prefix.1 hprefix) with hall | hdir
      · simp [hall]
      · exact absurd hdir hbelow
    · rfl
  have hname : (dir.join ⟨c.driverFileName⟩).fileName? =
      some (String.ofList (stem ++ ".py".toList)) := by
    rw [h.path_eq, h.isName.fileName?_join]
  simp only [moduleName, hstrip, Path.fileStem?, hname, Option.map_some, Option.getD_some,
    String.toList_ofList, h.stemOf_eq]
  rfl

/-! ### What a module name stands for -/

/-- A driver outside the working directory is the file that its module name stands for. -/
theorem components_moduleFile_outside (h : c.DriverStem stem) (hdir : dir.isAbsolute = true) :
    (moduleFile (((dir.join ⟨c.driverFileName⟩).parent?).getD ⟨"."⟩)
        (String.ofList stem)).components =
      (dir.join ⟨c.driverFileName⟩).components := by
  have hcut : (dir.join ⟨c.driverFileName⟩).leastCut <
      (dir.join ⟨c.driverFileName⟩).components.length := by
    rw [components_driver h, Path.components_of_isAbsolute hdir, Path.leastCut]
    split <;> simp
  obtain ⟨parent, hparent⟩ := Option.isSome_iff_exists.1 (Path.isSome_parent?.2 hcut)
  rw [hparent, Option.getD_some, moduleFile, String.toList_ofList, slashed_of_not_mem h.no_dot,
    h.isName.components_join, Path.components_parent hparent, components_driver h,
    List.dropLast_concat]

/-- A driver below the working directory is the file that its module name stands for, when the
directories on the way have no dots in their names. -/
theorem components_moduleFile_inside (h : c.DriverStem stem) (hdir : dir.isAbsolute = true)
    (hworking : workingDir.isAbsolute = true)
    (hbelow : workingDir.components ++ below = dir.components)
    (hdots : ∀ k ∈ below, '.' ∉ k.text.toList) :
    (moduleFile workingDir
        (".".intercalate (below.map (·.text) ++ [String.ofList stem]))).components =
      (dir.join ⟨c.driverFileName⟩).components := by
  have hnamed : ∀ k ∈ below, k ∈ Path.named (dir.chars.splitOn '/') := fun k hk =>
    Path.mem_named_of_mem_drop hdir (Path.length_components_ne_zero hworking)
      (by rwa [← hbelow, List.drop_left])
  have htexts : ∀ name ∈ below.map (·.text.toList) ++ [stem], '.' ∉ name := by
    simpa [or_imp, forall_and, h.no_dot] using hdots
  have hfile : slashed (".".intercalate (below.map (·.text) ++ [String.ofList stem])).toList ++
      ".py".toList = ['/'].intercalate (below.map (·.text.toList) ++ [stem ++ ".py".toList]) := by
    rw [← Text.intercalate_concat_append, ← slashed_intercalate htexts, String.toList_intercalate]
    simp [Function.comp_def]
  have hpieces : ∀ piece ∈ below.map (·.text.toList) ++ [stem ++ ".py".toList],
      piece ≠ [] ∧ '/' ∉ piece := by
    intro piece hmem
    rcases List.mem_append.1 hmem with hbefore | hlast
    · obtain ⟨k, hk, rfl⟩ := List.mem_map.1 hbefore
      obtain ⟨hpiece, hself⟩ := Path.text_mem_of_mem_named (hnamed k hk)
      exact ⟨Path.ne_nil_of_component? hself, Text.not_mem_of_mem_splitOn hpiece⟩
    · obtain rfl := List.mem_singleton.1 hlast
      exact ⟨h.isName.ne_nil, h.isName.not_mem⟩
  rw [moduleFile, hfile,
    Path.components_join_pieces (Path.chars_ne_nil hworking) (by simp) hpieces, Path.named_append,
    Path.named_map_text hnamed, Path.named_singleton (h.isName.component?_eq false),
    components_driver h, ← List.append_assoc, hbelow]

/-- No directory on the way to a module's file has a dot in its name: the dots of the module name
are slashes, and those of the ending are in the last name. -/
theorem not_mem_of_components_moduleFile (hworking : workingDir.isAbsolute = true)
    {module : String} {last : Path.Component}
    (h : (moduleFile workingDir module).components = workingDir.components ++ below ++ [last]) :
    ∀ k ∈ below, '.' ∉ k.text.toList := by
  obtain ⟨front, piece, hpieces, hending⟩ :=
    Text.splitOn_append_of_not_mem (x := '/') (r := ".py".toList) (slashed module.toList) (by simp)
  obtain ⟨above, hle, hcomponents⟩ := Path.exists_components_join hworking
    (Path.ofChars (slashed module.toList ++ ".py".toList))
  -- The dot of the ending is in the last piece, and the others hold none.
  have hslash : '/' ∉ piece :=
    Text.not_mem_of_mem_splitOn (s := slashed module.toList) (by simp [hpieces])
  rw [moduleFile, hcomponents, Path.chars_ofChars, hending, Path.named_append,
    Path.named_singleton ((Path.isName_append_ending hslash).component?_eq false),
    ← List.append_assoc] at h
  have hbelow : below = (above ++ Path.named front).drop workingDir.components.length := by
    rw [(List.append_inj' h rfl).1, List.drop_left]
  intro k hk hdot
  rw [hbelow, List.drop_append, List.drop_eq_nil_of_le hle, List.nil_append] at hk
  have hfront := (Path.text_mem_of_mem_named (List.mem_of_mem_drop hk)).1
  exact not_mem_slashed module.toList
    (Text.mem_of_mem_splitOn (hpieces ▸ List.mem_append_left [piece] hfront) hdot)

/-- **A module name stands for the driver exactly when no dot is lost in it.** The file that the
name stands for is the driver's when the driver is outside the working directory, and else exactly
when no directory between the two has a dot in its name. -/
theorem moduleFile_moduleName_iff (hc : c.problem? = none) (hdir : dir.isAbsolute = true)
    (hworking : workingDir.isAbsolute = true) :
    (moduleFile (moduleName (dir.join ⟨c.driverFileName⟩) workingDir).1
        (moduleName (dir.join ⟨c.driverFileName⟩) workingDir).2).components =
      (dir.join ⟨c.driverFileName⟩).components ↔
    (workingDir.components <+: dir.components →
      ∀ k ∈ dir.components.drop workingDir.components.length, '.' ∉ k.text.toList) := by
  obtain ⟨stem, h⟩ := Config.exists_driverStem hc
  by_cases hinside : workingDir.components <+: dir.components
  · obtain ⟨below, hbelow⟩ := hinside
    rw [moduleName_inside h hbelow, ← hbelow, List.drop_left]
    refine ⟨fun hfile _ => ?_, fun hdots => ?_⟩
    · rw [components_driver h, ← hbelow] at hfile
      exact not_mem_of_components_moduleFile hworking hfile
    · exact components_moduleFile_inside h hdir hworking hbelow
        (hdots (List.prefix_append _ _))
  · rw [moduleName_outside h hinside]
    exact iff_of_true (components_moduleFile_outside h hdir) fun hprefix => absurd hprefix hinside

/-- A driver in a package below the working directory is started by its own name. -/
theorem moduleFile_moduleName_of_package :
    (moduleFile
        (moduleName (Path.join ⟨"/proj/pkg"⟩ ⟨Config.default.driverFileName⟩) ⟨"/proj"⟩).1
        (moduleName (Path.join ⟨"/proj/pkg"⟩ ⟨Config.default.driverFileName⟩)
          ⟨"/proj"⟩).2).components =
      (Path.join ⟨"/proj/pkg"⟩ ⟨Config.default.driverFileName⟩).components :=
  (moduleFile_moduleName_iff (by decide +kernel) (by decide +kernel) (by decide +kernel)).2
    (by decide +kernel)

/-- A driver in a directory with a dot in its name is not the file that its module name stands
for. -/
theorem moduleFile_moduleName_ne_of_dotted :
    Config.default.problem? = none ∧
    moduleName (Path.join ⟨"/proj/a.b"⟩ ⟨Config.default.driverFileName⟩) ⟨"/proj"⟩ =
      (⟨"/proj"⟩, "a.b.import_probe_tmp") ∧
    (moduleFile ⟨"/proj"⟩ "a.b.import_probe_tmp").components ≠
      (Path.join ⟨"/proj/a.b"⟩ ⟨Config.default.driverFileName⟩).components := by
  decide +kernel

end

/-! ### The characters of a module name -/

theorem mem_of_mem_stemOf {name : List Char} {c : Char} (h : c ∈ Path.stemOf name) : c ∈ name := by
  have hstem : c ∈ ((name.reverse.dropWhile (· != '.')).drop 1).reverse → c ∈ name := fun h =>
    List.mem_reverse.1 ((List.dropWhile_suffix _).mem (List.mem_of_mem_drop (List.mem_reverse.1 h)))
  rw [Path.stemOf] at h
  split at h
  · exact h
  · exact hstem h

/-- A module name is the stem of the driver's file, or joins names of directories and the stem. -/
theorem moduleName_snd (driver workingDir : Path) :
    (moduleName driver workingDir).2 = driver.fileStem?.getD "" ∨
      ∃ names, (moduleName driver workingDir).2 = ".".intercalate names ∧
        ∀ name ∈ names, ∃ k ∈ (driver.stripBase? workingDir).getD [],
          name = k.text ∨ name.toList = Path.stemOf k.text.toList := by
  refine (Decidable.em _).imp (fun hempty => congrArg Prod.snd (if_pos hempty)) fun hempty =>
    ⟨_, congrArg Prod.snd (if_neg hempty), fun name hname => ?_⟩
  rcases List.mem_append.1 hname with hfolder | hlast
  · obtain ⟨k, hk, rfl⟩ := List.mem_map.1 hfolder
    exact ⟨k, (List.dropLast_subset _) hk, .inl rfl⟩
  · split at hlast
    · rename_i file hfile
      obtain rfl := List.mem_singleton.1 hlast
      exact ⟨_, List.mem_of_getLast? hfile, .inr (String.toList_ofList)⟩
    · cases hlast

/-- A module name is written with what the driver's path holds, and dots. -/
theorem mem_chars_of_mem_moduleName {driver workingDir : Path} {c : Char}
    (h : c ∈ (moduleName driver workingDir).2.toList) : c = '.' ∨ c ∈ driver.chars := by
  have hcomponent : ∀ k ∈ driver.components, c ∈ k.text.toList → c ∈ driver.chars :=
    fun k hk => Path.mem_chars_of_mem_components hk
  rcases moduleName_snd driver workingDir with hname | ⟨names, hname, hnames⟩
  · rw [hname] at h
    cases hfile : driver.fileName? with
    | none => simp [Path.fileStem?, hfile] at h
    | some file =>
      have hstem : c ∈ Path.stemOf file.toList := by simpa [Path.fileStem?, hfile] using h
      exact .inr (hcomponent _ (Path.mem_components_of_fileName? hfile) (mem_of_mem_stemOf hstem))
  · rw [hname, String.toList_intercalate, show ".".toList = ['.'] by rfl,
      Text.mem_intercalate_iff] at h
    obtain ⟨piece, hpiece, hc⟩ | ⟨hdot, -⟩ := h
    · obtain ⟨name, hmem, rfl⟩ := List.mem_map.1 hpiece
      obtain ⟨k, hk, htext⟩ := hnames name hmem
      have hbelow : k ∈ driver.components := by
        rw [Path.stripBase?] at hk
        split at hk
        · exact List.mem_of_mem_drop hk
        · cases hk
      refine .inr (hcomponent k hbelow ?_)
      rcases htext with rfl | hstem
      · exact hc
      · exact mem_of_mem_stemOf (hstem ▸ hc)
    · exact .inl hdot

end Introspection
end CompletionPrompt
