import CompletionPrompt.Host.Files

/-!
# A file that comes and goes

`Files.createNew` puts a file where nothing stood (`createNew_eq_ok_iff`), and what already stands
somewhere is a collision (`createNew_eq_alreadyExists`). A new file leads nowhere, so every path is
followed as before (`follow_add`), every directory is entered as before (`enter_add`), and a program
that was found is found again (`findProgram_add_eq_ok_iff`), also on a search path, where the first
program ends the search (`searchProgram_eq_ok_iff`). So taking the new file away under the path that
it was made under gives the files back, entry by entry (`remove_add`).
-/

namespace CompletionPrompt

/-- Results are compared by their values or by their failures. -/
instance instDecidableEqExcept {ε α : Type} [DecidableEq ε] [DecidableEq α] :
    DecidableEq (Except ε α)
  | .ok a, .ok b => decidable_of_iff (a = b) ⟨congrArg _, Except.ok.inj⟩
  | .error e, .error f => decidable_of_iff (e = f) ⟨congrArg _, Except.error.inj⟩
  | .ok _, .error _ | .error _, .ok _ => isFalse nofun

/-- A path that puts slashes after a name wants a directory. -/
theorem Path.wantsDirectory_of_namesFolder {p : Path} (h : p.namesFolder = true) :
    p.wantsDirectory = true := by
  unfold namesFolder at h
  split at h
  · rename_i name stop hlast
    simp only [Bool.and_eq_true, Bool.not_eq_true', List.isEmpty_eq_false_iff,
      List.all_eq_true, decide_eq_true_eq] at h
    obtain ⟨slashes, c, hslashes⟩ := (p.chars.drop stop).eq_nil_or_concat.resolve_left h.1
    obtain rfl : c = '/' := h.2 c (by simp [hslashes])
    have hchars : p.chars = p.chars.take stop ++ slashes ++ ['/'] := by
      rw [List.append_assoc, ← List.concat_eq_append, ← hslashes, List.take_append_drop]
    rw [wantsDirectory, hchars, List.reverse_append]
    rfl
  · cases h

/-- What is joined to an absolute path is absolute. -/
theorem Path.isAbsolute_join {p : Path} (h : p.isAbsolute = true) (q : Path) :
    (p.join q).isAbsolute = true := by
  unfold join
  split
  · assumption
  · have hhead : p.chars.head? = some '/' := by simpa [isAbsolute] using h
    obtain ⟨rest, hrest⟩ := List.head?_eq_some_iff.1 hhead
    simp [isAbsolute, ofChars, chars] at hrest ⊢
    simp [hrest]

namespace Files

/-- The files with one more entry. -/
def add (fs : Files) (names : List String) (entry : Entry) : Files :=
  ⟨fs.entries ++ [(names, entry)]⟩

/-! ### What a new entry changes -/

section Add

variable {fs : Files} {new : List String} {entry : Entry}

theorem ne_nil_of_absent (h : fs.entry? new = none) : new ≠ [] := by
  rintro rfl
  exact absurd h (by simp [ entry?])

theorem ne_of_absent (h : fs.entry? new = none) : ∀ x ∈ fs.entries, x.1 ≠ new := by
  simpa [ entry?, ne_nil_of_absent h] using h

/-- Elsewhere everything stands as before. -/
theorem entry?_add_of_ne {names : List String} (h : names ≠ new) :
    Files.entry? (fs.add new entry) names = fs.entry? names := by
  have hnone : [(new, entry)].find? (·.1 == names) = none := by simp [Ne.symm h]
  rw [ entry?, entry?, add, List.find?_append, hnone, Option.or_none]

theorem entry?_add_self (h : fs.entry? new = none) :
    Files.entry? (fs.add new entry) new = some entry := by
  have hbefore : fs.entries.find? (·.1 == new) = none := by
    simpa using ne_of_absent h
  simp [ entry?, add, ne_nil_of_absent h, List.find?_append, hbefore]

/-- A directory can be entered. -/
theorem enter_eq_ok_iff {names : List String} :
    fs.enter names = .ok () ↔ fs.entry? names = some .directory := by
  unfold enter
  split <;> simp_all

/-- A new file is no directory, and the directories are those of before. -/
theorem enter_add {names : List String} (h : fs.entry? new = none) (hentry : entry ≠ .directory) :
    (fs.add new entry).enter names = .ok () ↔ fs.enter names = .ok () := by
  rw [enter_eq_ok_iff, enter_eq_ok_iff]
  by_cases hnames : names = new
  · subst hnames
    simp [ entry?_add_self h, h, hentry]
  · rw [ entry?_add_of_ne hnames]

end Add

/-! ### Following paths -/

/-- Every directory above a place can be entered. -/
def Reached (fs : Files) (here : List String) : Prop :=
  ∀ names, names <+: here.dropLast → fs.enter names = .ok ()

theorem reached_nil (fs : Files) : fs.Reached [] := by
  intro names h
  obtain rfl := List.prefix_nil.1 h
  rfl

theorem Reached.enter_of_prefix {fs : Files} {here names : List String} (h : fs.Reached here)
    (henter : fs.enter here = .ok ()) (hnames : names <+: here) : fs.enter names = .ok () := by
  rcases List.eq_nil_or_concat here with rfl | ⟨front, last, rfl⟩
  · obtain rfl := List.prefix_nil.1 hnames
    exact henter
  · rw [List.concat_eq_append] at *
    rcases List.prefix_concat_iff.1 hnames with rfl | hfront
    · exact henter
    · exact h names (by simpa using hfront)

/-- One step of following a path: the place must be a directory, and the next component says where
to go from it. -/
theorem follow_cons_eq_ok_iff {fs : Files} {here names : List String} {c : Path.Component}
    {cs : List Path.Component} :
    fs.follow here (c :: cs) = .ok names ↔
      fs.enter here = .ok () ∧
        match c with
        | .root => fs.follow [] cs = .ok names
        | .current => fs.follow here cs = .ok names
        | .parent => fs.follow here.dropLast cs = .ok names
        | .normal name =>
          Text.byteLength name.toList ≤ maxNameLength ∧
            fs.follow (here ++ [name]) cs = .ok names := by
  simp only [follow]
  cases henter : fs.enter here with
  | error fault => simp
  | ok _ =>
    cases c with
    | normal name =>
      by_cases hlong : Text.byteLength name.toList > maxNameLength
      · simp [hlong, Nat.not_le.2 hlong]
      · simp [hlong, Nat.not_lt.1 hlong]
    | _ => simp

/-- Where a path leads, every directory on the way can be entered. -/
theorem reached_of_follow {fs : Files} {cs : List Path.Component} {here names : List String}
    (hhere : fs.Reached here) (h : fs.follow here cs = .ok names) : fs.Reached names := by
  induction cs generalizing here with
  | nil =>
    obtain rfl := Except.ok.inj h
    exact hhere
  | cons c cs ih =>
    obtain ⟨henter, hnext⟩ := follow_cons_eq_ok_iff.1 h
    have hbelow : ∀ names, names <+: here → fs.enter names = .ok () :=
      fun names => hhere.enter_of_prefix henter
    cases c with
    | root => exact ih fs.reached_nil hnext
    | current => exact ih hhere hnext
    | parent =>
      refine ih (fun names hnames => hbelow names ?_) hnext
      exact hnames.trans ((List.dropLast_prefix _).trans (List.dropLast_prefix _))
    | normal name => exact ih (fun names hnames => hbelow names (by simpa using hnames)) hnext.2

/-- **A new file leads nowhere:** paths lead where they led before. -/
theorem follow_add {fs : Files} {new : List String} {entry : Entry} (h : fs.entry? new = none)
    (hentry : entry ≠ .directory) {cs : List Path.Component} {here names : List String} :
    (fs.add new entry).follow here cs = .ok names ↔ fs.follow here cs = .ok names := by
  induction cs generalizing here with
  | nil => exact Iff.rfl
  | cons c cs ih =>
    rw [follow_cons_eq_ok_iff, follow_cons_eq_ok_iff, enter_add h hentry]
    cases c <;> simp only [ih]

section Paths

variable {fs : Files} {currentDir p : Path} {names : List String}

theorem names_eq_ok_iff :
    fs.names currentDir p = .ok names ↔
      p.text.isEmpty = false ∧ p.chars.contains '\x00' = false ∧
        fs.follow [] (p.absoluteFrom currentDir).components = .ok names := by
  unfold Files.names
  split
  · simp_all
  · split <;> simp_all

theorem locate_eq_ok_iff :
    fs.locate currentDir p = .ok names ↔
      fs.names currentDir p = .ok names ∧
        (p.wantsDirectory = true →
          fs.entry? names = some .directory ∨ fs.entry? names = none) := by
  unfold locate
  cases hnames : fs.names currentDir p with
  | error fault => simp
  | ok found =>
    by_cases hwants : p.wantsDirectory = true
    · simp only [hwants, if_true, Except.ok.injEq, true_imp_iff]
      split <;> simp_all <;> rintro rfl <;> simp_all
    · simp [hwants]

theorem lookUp_eq_ok_iff {entry : Entry} :
    fs.lookUp currentDir p = .ok entry ↔
      ∃ names, fs.locate currentDir p = .ok names ∧ fs.entry? names = some entry := by
  unfold lookUp
  cases hlocate : fs.locate currentDir p with
  | error fault => simp
  | ok names => cases hentry : fs.entry? names <;> simp [hentry]

/-- The directory of what a path leads to can be entered. -/
theorem enter_dropLast (h : fs.names currentDir p = .ok names) :
    fs.enter names.dropLast = .ok () :=
  reached_of_follow fs.reached_nil (names_eq_ok_iff.1 h).2.2 _ List.prefix_rfl

/-- The current directory does not matter for an absolute path. -/
theorem lookUp_of_isAbsolute (fs : Files) (habsolute : p.isAbsolute = true)
    (currentDir currentDir' : Path) : fs.lookUp currentDir p = fs.lookUp currentDir' p := by
  simp [lookUp, locate, Files.names, Path.absoluteFrom, habsolute]

variable {new : List String} {entry : Entry}

theorem names_add (h : fs.entry? new = none) (hentry : entry ≠ .directory) :
    (fs.add new entry).names currentDir p = .ok names ↔ fs.names currentDir p = .ok names := by
  rw [names_eq_ok_iff, names_eq_ok_iff, follow_add h hentry]

/-- The directory that a path leads to is entered as before. -/
theorem locate_enter_add (h : fs.entry? new = none) (hentry : entry ≠ .directory) :
    ((fs.add new entry).locate currentDir p = .ok names ∧
        (fs.add new entry).enter names = .ok ()) ↔
      (fs.locate currentDir p = .ok names ∧ fs.enter names = .ok ()) := by
  rw [enter_add h hentry, locate_eq_ok_iff, locate_eq_ok_iff, names_add h hentry]
  refine and_congr_left fun henter => and_congr_right fun _ => ?_
  have hdir := enter_eq_ok_iff.1 henter
  have hne : names ≠ new := by
    rintro rfl
    exact absurd hdir (by simp [h])
  rw [ entry?_add_of_ne hne]

/-- A program is found where it was found before: a new file that is none hides none. -/
theorem lookUp_add_eq_program_iff {text : Option String} (h : fs.entry? new = none)
    (hentry : entry ≠ .directory) (hprogram : entry ≠ .program text) :
    (fs.add new entry).lookUp currentDir p = .ok (.program text) ↔
      fs.lookUp currentDir p = .ok (.program text) := by
  rw [lookUp_eq_ok_iff, lookUp_eq_ok_iff]
  refine exists_congr fun names => ?_
  rw [locate_eq_ok_iff, locate_eq_ok_iff, names_add h hentry]
  by_cases hnames : names = new
  · subst hnames
    simp [ entry?_add_self h, h, hprogram]
  · rw [ entry?_add_of_ne hnames]

end Paths

/-! ### Finding programs -/

theorem checkProgram_eq_ok_iff {fs : Files} {currentDir p : Path} :
    fs.checkProgram currentDir p = .ok () ↔
      ∃ text, fs.lookUp currentDir p = .ok (.program text) := by
  unfold checkProgram
  cases hlookUp : fs.lookUp currentDir p with
  | error fault => simp
  | ok entry => cases entry <;> simp

/-- **A search ends at the first program,** unless a name is too long before it. -/
theorem searchProgram_eq_ok_iff {fs : Files} {currentDir : Path} {name : String} {fault : Fault}
    {dirs : List Path} :
    fs.searchProgram currentDir name fault dirs = .ok () ↔
      ∃ before dir after, dirs = before ++ dir :: after ∧
        (∀ d ∈ before, fs.checkProgram currentDir (d.join ⟨name⟩) ≠ .error .nameTooLong) ∧
        fs.checkProgram currentDir (dir.join ⟨name⟩) = .ok () := by
  fun_induction searchProgram fs currentDir name fault dirs with
  | case1 fault => simp
  | case2 fault dir dirs hfound => exact iff_of_true rfl ⟨[], dir, dirs, rfl, by simp, hfound⟩
  | case3 fault dir dirs hlong =>
    refine iff_of_false (by simp) ?_
    rintro ⟨before, d, after, hdirs, hbefore, hd⟩
    cases before with
    | nil =>
      obtain ⟨rfl, -⟩ := List.cons.inj hdirs
      exact absurd (hlong.symm.trans hd) (by simp)
    | cons first before =>
      obtain ⟨rfl, -⟩ := List.cons.inj hdirs
      exact hbefore dir List.mem_cons_self hlong
  | case4 fault dir dirs found hne hmissing ih =>
    rw [ih]
    constructor
    · rintro ⟨before, d, after, rfl, hbefore, hd⟩
      refine ⟨dir :: before, d, after, rfl, List.forall_mem_cons.2 ⟨?_, hbefore⟩, hd⟩
      rw [hmissing]
      exact fun h => hne (Except.error.inj h)
    · rintro ⟨before, d, after, hdirs, hbefore, hd⟩
      cases before with
      | nil =>
        obtain ⟨rfl, -⟩ := List.cons.inj hdirs
        exact absurd (hmissing.symm.trans hd) (by simp)
      | cons first before =>
        obtain ⟨-, rfl⟩ := List.cons.inj hdirs
        exact ⟨before, d, after, rfl, (List.forall_mem_cons.1 hbefore).2, hd⟩

theorem checkProgram_of_isAbsolute (fs : Files) {p : Path} (habsolute : p.isAbsolute = true)
    (currentDir currentDir' : Path) :
    fs.checkProgram currentDir p = fs.checkProgram currentDir' p := by
  rw [checkProgram, checkProgram, fs.lookUp_of_isAbsolute habsolute currentDir currentDir']

theorem searchProgram_of_isAbsolute (fs : Files) {dirs : List Path}
    (habsolute : ∀ d ∈ dirs, d.isAbsolute = true) (currentDir currentDir' : Path) (name : String)
    (fault : Fault) :
    fs.searchProgram currentDir name fault dirs =
      fs.searchProgram currentDir' name fault dirs := by
  induction dirs generalizing fault with
  | nil => rfl
  | cons dir dirs ih =>
    obtain ⟨hdir, hdirs⟩ := List.forall_mem_cons.1 habsolute
    have hjoin : (dir.join ⟨name⟩).isAbsolute = true := Path.isAbsolute_join hdir _
    simp only [searchProgram, fs.checkProgram_of_isAbsolute hjoin currentDir currentDir', ih hdirs]

section AddProgram

variable {fs : Files} {currentDir p : Path} {new : List String} {entry : Entry}

theorem enter_ne_nameTooLong (fs : Files) (names : List String) :
    fs.enter names ≠ .error .nameTooLong := by
  unfold enter
  split <;> simp

/-- A new file makes no name too long, and none short enough. -/
theorem follow_add_eq_nameTooLong_iff (h : fs.entry? new = none) (hentry : entry ≠ .directory)
    {cs : List Path.Component} {here : List String} :
    (fs.add new entry).follow here cs = .error .nameTooLong ↔
      fs.follow here cs = .error .nameTooLong := by
  induction cs generalizing here with
  | nil => simp [follow]
  | cons c cs ih =>
    by_cases henter : fs.enter here = .ok ()
    · cases c <;> simp only [follow, henter, (enter_add h hentry).2 henter]
      case normal name =>
        split
        · rfl
        · exact ih
      all_goals exact ih
    · have hfault : ∀ fs' : Files, fs'.enter here ≠ .ok () →
          fs'.follow here (c :: cs) ≠ .error .nameTooLong := by
        intro fs' hfs'
        cases hplace : fs'.enter here with
        | ok _ => exact absurd hplace hfs'
        | error fault =>
          simp only [follow, hplace]
          exact fun hlong => enter_ne_nameTooLong fs' here
            (hplace.trans (congrArg _ (Except.error.inj hlong)))
      exact iff_of_false (hfault _ (mt (enter_add h hentry).1 henter)) (hfault _ henter)

theorem names_add_eq_nameTooLong_iff (h : fs.entry? new = none) (hentry : entry ≠ .directory) :
    (fs.add new entry).names currentDir p = .error .nameTooLong ↔
      fs.names currentDir p = .error .nameTooLong := by
  unfold Files.names
  split
  · rfl
  split
  · rfl
  · exact follow_add_eq_nameTooLong_iff h hentry

/-- Only a name that is too long is in the way of looking something up as one. -/
theorem checkProgram_eq_nameTooLong_iff :
    fs.checkProgram currentDir p = .error .nameTooLong ↔
      fs.names currentDir p = .error .nameTooLong := by
  unfold checkProgram lookUp locate
  cases hnames : fs.names currentDir p with
  | error fault => simp
  | ok names =>
    cases hwants : p.wantsDirectory <;> cases hentry : fs.entry? names with
    | none => simp [hentry]
    | some entry => cases entry <;> simp [hentry]

/-- A program is found where it was found before: a new file that is none hides none. -/
theorem checkProgram_add_eq_ok_iff (h : fs.entry? new = none) (hentry : entry ≠ .directory)
    (hprogram : ∀ text, entry ≠ .program text) :
    (fs.add new entry).checkProgram currentDir p = .ok () ↔ fs.checkProgram currentDir p = .ok () := by
  simp only [checkProgram_eq_ok_iff, lookUp_add_eq_program_iff h hentry (hprogram _)]

theorem findProgram_add_eq_ok_iff (h : fs.entry? new = none) (hentry : entry ≠ .directory)
    (hprogram : ∀ text, entry ≠ .program text) {searchPath : List Path} {name : String} :
    (fs.add new entry).findProgram currentDir searchPath name = .ok () ↔
      fs.findProgram currentDir searchPath name = .ok () := by
  unfold findProgram
  split
  · exact checkProgram_add_eq_ok_iff h hentry hprogram
  split
  · rfl
  · simp only [searchProgram_eq_ok_iff, ne_eq, checkProgram_add_eq_ok_iff h hentry hprogram,
      checkProgram_eq_nameTooLong_iff, names_add_eq_nameTooLong_iff h hentry]

end AddProgram

/-! ### Creating and removing -/

/-- Nothing stands under a path, and a file can: the path leads to a place in a directory, and it
may lead to something other than a directory. -/
structure FreeAt (fs : Files) (currentDir p : Path) (names : List String) : Prop where
  names_eq : fs.names currentDir p = .ok names
  absent : fs.entry? names = none
  mayBeFile : p.wantsDirectory = false

section Create

variable {fs fs' : Files} {currentDir p : Path} {names : List String} {text : String}

/-- **A file is created where nothing stood.** -/
theorem createNew_eq_ok_iff :
    fs.createNew currentDir p text = .ok fs' ↔
      ∃ names, fs.FreeAt currentDir p names ∧ fs' = fs.add names (.file (some text)) := by
  unfold createNew
  cases hnames : fs.names currentDir p with
  | error fault =>
    simp only [reduceCtorEq, false_iff]
    rintro ⟨names, hfree, -⟩
    exact absurd (hnames.symm.trans hfree.names_eq) (by simp)
  | ok names =>
    have hparent := enter_dropLast hnames
    simp only [hparent]
    constructor
    · intro h
      split at h
      · cases h
      · split at h
        · cases h
        · cases h
        · rename_i habsent
          split at h
          · cases h
          · rename_i hwants
            exact ⟨names, ⟨hnames, habsent, by simpa using hwants⟩, (Except.ok.inj h).symm⟩
    · rintro ⟨found, hfree, rfl⟩
      obtain rfl := Except.ok.inj (hnames.symm.trans hfree.names_eq)
      have hfolder : p.namesFolder = false := Bool.eq_false_iff.2 fun h =>
        Bool.eq_false_iff.1 hfree.mayBeFile (Path.wantsDirectory_of_namesFolder h)
      simp [hfolder, hfree.absent, hfree.mayBeFile, add]

/-- **What stands under a path is not written over,** unless the path puts slashes after a name and
so can be no file's. -/
theorem createNew_eq_alreadyExists {entry : Entry} (h : fs.lookUp currentDir p = .ok entry)
    (hfolder : p.namesFolder = false) :
    fs.createNew currentDir p text = .error .alreadyExists := by
  obtain ⟨names, hlocate, hentry⟩ := lookUp_eq_ok_iff.1 h
  obtain ⟨hnames, hdirectory⟩ := locate_eq_ok_iff.1 hlocate
  have hparent := enter_dropLast hnames
  simp only [createNew, hnames, hparent, hfolder, hentry]
  cases entry with
  | directory => rfl
  | _ =>
    have hwants : p.wantsDirectory = false := Bool.eq_false_iff.2 fun hwants => by
      simpa [hentry] using hdirectory hwants
    simp [hwants]

/-- **A new file that is removed again leaves the files of before.** -/
theorem remove_add (h : fs.FreeAt currentDir p names) :
    (fs.add names (.file (some text))).remove currentDir p = fs := by
  have hlocate : (fs.add names (.file (some text))).locate currentDir p = .ok names :=
    locate_eq_ok_iff.2 ⟨(names_add h.absent (by simp)).2 h.names_eq, by simp [h.mayBeFile]⟩
  have hothers : fs.entries.filter (·.1 != names) = fs.entries :=
    List.filter_eq_self.2 fun x hx => by simpa using ne_of_absent h.absent x hx
  rw [remove, hlocate]
  simp only [ entry?_add_self h.absent]
  simp [add, List.filter_append, hothers]

end Create

end Files
end CompletionPrompt
