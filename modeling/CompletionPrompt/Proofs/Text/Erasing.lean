import CompletionPrompt.Text.Search

/-!
# Erasing in a marked text

`eraseAll` works on characters and forgets where they stood. To say what it leaves of some stretches
of a text, the characters of those stretches bear a mark (`Marked`), and erasing keeps the marks
(`eraseMarked`). Two things may be asked of the occurrences that are erased: that none reaches over
the edge of a marked stretch (`keepsEdges`), and, which is more, that none touches a character
without a mark (`keepsEdges_of_outside`).

Where no occurrence reaches over an edge, a marked stretch is erased as if it stood alone
(`Woven.eraseEach`). Stretches that become empty let what stands around them meet, so the
induction is on a text woven of marked stretches, some of which are gone (`Woven`); what keeps the
others apart is the first character after each of them, which no needle starts with.
-/

namespace CompletionPrompt
namespace Text

/-! ### Erasing -/

theorem eraseFrom_eq_eraseAll_drop (needle : List Char) (k : Nat) (s : List Char) :
    eraseFrom needle k s = eraseAll needle (s.drop k) := by
  induction s generalizing k with
  | nil => simp [eraseFrom, eraseAll]
  | cons c s ih =>
    cases k with
    | zero => rfl
    | succ k => rw [eraseFrom, List.drop_succ_cons, ih]

@[simp] theorem eraseAll_nil (needle : List Char) : eraseAll needle [] = [] := rfl

/-- A text that starts with the needle loses it. -/
theorem eraseAll_append {needle : List Char} (hne : needle ≠ []) (s : List Char) :
    eraseAll needle (needle ++ s) = eraseAll needle s := by
  obtain ⟨c, n, rfl⟩ := List.exists_cons_of_ne_nil hne
  have hstart : (c :: n).isPrefixOf (c :: (n ++ s)) = true := isPrefixOf_eq_true_iff.2 ⟨s, rfl⟩
  rw [List.cons_append, eraseAll, eraseFrom, hstart]
  simp [eraseFrom_eq_eraseAll_drop]

@[simp] theorem eraseAll_self (s : List Char) : eraseAll s s = [] := by
  by_cases hne : s = []
  · simp [hne]
  · simpa using eraseAll_append hne []

/-- A text that the needle does not occur in stays as it is. -/
theorem eraseAll_of_not_occurs {needle s : List Char} (h : occurs needle s = false) :
    eraseAll needle s = s := by
  induction s with
  | nil => rfl
  | cons c s ih =>
    rw [occurs, cut?] at h
    split at h
    · simp at h
    · rename_i hstart
      rw [eraseAll, eraseFrom, if_neg fun hand => hstart (Bool.and_eq_true_iff.1 hand).1]
      exact congrArg (c :: ·) (ih (by simpa [occurs] using h))

/-- Several needles leave nothing of nothing. -/
theorem foldl_eraseAll_nil (needles : List (List Char)) :
    needles.foldl (fun s n => eraseAll n s) [] = [] := by
  induction needles with
  | nil => rfl
  | cons n ns ih => rw [List.foldl_cons, eraseAll_nil, ih]

/-! ### Marked texts -/

/-- A text with marks on some of its characters. -/
abbrev Marked : Type := List (Char × Bool)

namespace Marked

/-- A text all of whose characters bear a mark, or none of them. -/
def uniform (mark : Bool) (s : List Char) : Marked :=
  s.map (·, mark)

/-- The characters of a marked text. -/
def plain (t : Marked) : List Char :=
  t.map (·.1)

/-- The characters with a mark. -/
def inside (t : Marked) : List Char :=
  plain (t.filter (·.2))

/-- The characters without a mark. -/
def outside (t : Marked) : List Char :=
  plain (t.filter (!·.2))

@[simp] theorem plain_append (t u : Marked) : plain (t ++ u) = plain t ++ plain u :=
  List.map_append

@[simp] theorem plain_uniform (mark : Bool) (s : List Char) : plain (uniform mark s) = s := by
  simp [plain, uniform, Function.comp_def]

theorem eq_uniform {t : Marked} {mark : Bool} (h : ∀ x ∈ t, x.2 = mark) :
    t = uniform mark t.plain := by
  induction t with
  | nil => rfl
  | cons x t ih =>
    obtain ⟨c, m⟩ := x
    obtain rfl : m = mark := h (c, m) List.mem_cons_self
    exact congrArg ((c, m) :: ·) (ih fun x hx => h x (List.mem_cons_of_mem _ hx))

@[simp] theorem inside_append (t u : Marked) : inside (t ++ u) = inside t ++ inside u := by
  simp [inside]

@[simp] theorem outside_append (t u : Marked) : outside (t ++ u) = outside t ++ outside u := by
  simp [outside]

@[simp] theorem inside_uniform (mark : Bool) (s : List Char) :
    inside (uniform mark s) = if mark then s else [] := by
  cases mark <;> simp [inside, uniform, plain, List.filter_map, Function.comp_def]

@[simp] theorem outside_uniform (mark : Bool) (s : List Char) :
    outside (uniform mark s) = if mark then [] else s := by
  cases mark <;> simp [outside, uniform, plain, List.filter_map, Function.comp_def]

theorem length_inside_add_length_outside (t : Marked) :
    (inside t).length + (outside t).length = (plain t).length := by
  induction t with
  | nil => rfl
  | cons x t ih =>
    obtain ⟨c, mark⟩ := x
    cases mark with
    | false =>
      simp [inside, outside, plain] at ih ⊢
      omega
    | true =>
      simp [inside, outside, plain] at ih ⊢
      omega

theorem length_outside_cons (x : Char × Bool) (t : Marked) :
    (outside (x :: t)).length = (if x.2 then 0 else 1) + (outside t).length := by
  obtain ⟨c, mark⟩ := x
  cases mark with
  | false =>
    simp [outside, plain]
    omega
  | true => simp [outside, plain]

theorem length_outside_le {t u : Marked} (h : t.Sublist u) :
    (outside t).length ≤ (outside u).length :=
  ((h.filter _).map _).length_le

/-- What bears no mark makes up the text when nothing bears one. -/
theorem outside_eq_plain {t : Marked} (h : inside t = []) : outside t = plain t := by
  have hno : t.filter (·.2) = [] := List.map_eq_nil_iff.1 h
  have hall : t.filter (!·.2) = t := by
    refine List.filter_eq_self.2 fun x hx => ?_
    simpa using List.filter_eq_nil_iff.1 hno x hx
  rw [outside, hall]

end Marked

/-- A marked text after `skip` characters are dropped and then every occurrence of a needle. -/
def eraseMarkedFrom (needle : List Char) : Nat → Marked → Marked
  | _, [] => []
  | skip + 1, _ :: t => eraseMarkedFrom needle skip t
  | 0, x :: t =>
    if needle.isPrefixOf (Marked.plain (x :: t)) && !needle.isEmpty then
      eraseMarkedFrom needle (needle.length - 1) t
    else x :: eraseMarkedFrom needle 0 t

/-- A marked text without the occurrences of a needle. -/
def eraseMarked (needle : List Char) (t : Marked) : Marked :=
  eraseMarkedFrom needle 0 t

/-- Does each occurrence of a needle that is erased bear a mark throughout, or none at all? -/
def keepsEdgesFrom (needle : List Char) : Nat → Marked → Bool
  | _, [] => true
  | skip + 1, _ :: t => keepsEdgesFrom needle skip t
  | 0, x :: t =>
    if needle.isPrefixOf (Marked.plain (x :: t)) && !needle.isEmpty then
      (t.take (needle.length - 1)).all (·.2 == x.2) &&
        keepsEdgesFrom needle (needle.length - 1) t
    else keepsEdgesFrom needle 0 t

/-- Erasing keeps the edges of the marked stretches. -/
def keepsEdges (needle : List Char) (t : Marked) : Bool :=
  keepsEdgesFrom needle 0 t

/-- Marks are of no account to what is erased. -/
theorem plain_eraseMarkedFrom (needle : List Char) (k : Nat) (t : Marked) :
    (eraseMarkedFrom needle k t).plain = eraseFrom needle k t.plain := by
  induction t generalizing k with
  | nil => cases k <;> rfl
  | cons x t ih =>
    cases k with
    | succ k => exact ih k
    | zero =>
      have hplain : Marked.plain (x :: t) = x.1 :: Marked.plain t := rfl
      rw [eraseMarkedFrom, hplain, eraseFrom]
      split
      · exact ih _
      · exact congrArg (x.1 :: ·) (ih 0)

theorem eraseMarkedFrom_sublist (needle : List Char) (k : Nat) (t : Marked) :
    (eraseMarkedFrom needle k t).Sublist t := by
  induction t generalizing k with
  | nil => cases k <;> exact List.Sublist.refl []
  | cons x t ih =>
    cases k with
    | succ k => exact (ih k).cons x
    | zero =>
      rw [eraseMarkedFrom]
      split
      · exact (ih _).cons x
      · exact (ih 0).cons_cons x

/-- The first character stays when the needle starts with another. -/
theorem eraseMarked_cons {needle : List Char} {x : Char × Bool} (h : needle.head? ≠ some x.1)
    (t : Marked) : eraseMarked needle (x :: t) = x :: eraseMarked needle t := by
  rw [eraseMarked, eraseMarkedFrom, if_neg]
  · rfl
  · cases needle with
    | nil => simp
    | cons c n =>
      have hc : c ≠ x.1 := fun hc => h (congrArg some hc)
      simp [Marked.plain, hc]

/-! ### Stretches of a marked text -/

/-- A stretch with one mark in front of a character with the other is erased on its own. -/
theorem eraseMarkedFrom_append {needle : List Char} {mark : Bool} {t : Marked}
    (ht : ∀ x ∈ t.head?, x.2 ≠ mark) {k : Nat} {s : List Char} (hk : k ≤ s.length)
    (h : keepsEdgesFrom needle k (Marked.uniform mark s ++ t) = true) :
    eraseMarkedFrom needle k (Marked.uniform mark s ++ t) =
        Marked.uniform mark (eraseFrom needle k s) ++ eraseMarked needle t ∧
      keepsEdges needle t = true := by
  induction s generalizing k with
  | nil =>
    obtain rfl : k = 0 := Nat.le_zero.1 hk
    exact ⟨rfl, h⟩
  | cons c s ih =>
    have hcons : Marked.uniform mark (c :: s) ++ t =
        (c, mark) :: (Marked.uniform mark s ++ t) := rfl
    rw [hcons] at h ⊢
    cases k with
    | succ k => exact ih (Nat.le_of_succ_le_succ hk) h
    | zero =>
      have hplain : Marked.plain ((c, mark) :: (Marked.uniform mark s ++ t)) =
          c :: s ++ t.plain := by
        rw [← hcons, Marked.plain_append, Marked.plain_uniform]
      rw [keepsEdgesFrom, hplain] at h
      rw [eraseMarkedFrom, eraseFrom, hplain]
      by_cases hmatch : (needle.isPrefixOf (c :: s ++ t.plain) && !needle.isEmpty) = true
      · rw [if_pos hmatch, Bool.and_eq_true] at h
        obtain ⟨hsame, hrest⟩ := h
        obtain ⟨hstart, hne⟩ := Bool.and_eq_true_iff.1 hmatch
        rw [List.isPrefixOf_iff_prefix] at hstart
        -- The occurrence ends in the stretch, for the character behind that has the other mark.
        have hlen : needle.length ≤ (c :: s).length := by
          refine Nat.le_of_not_lt fun hlt => ?_
          have htotal := hstart.length_le
          rw [List.length_append] at htotal
          cases t with
          | nil => exact absurd htotal (by simp [Marked.plain]; omega)
          | cons y t =>
            have hmem : y ∈ (Marked.uniform mark s ++ y :: t).take (needle.length - 1) := by
              refine List.mem_take_iff_getElem.2 ⟨s.length, ?_, ?_⟩
              · simp [Marked.uniform]
                simp at hlt
                omega
              · simp [Marked.uniform]
            exact ht y rfl (by simpa using List.all_eq_true.1 hsame y hmem)
        have hstretch : (needle.isPrefixOf (c :: s) && !needle.isEmpty) = true := by
          rw [Bool.and_eq_true, List.isPrefixOf_iff_prefix]
          exact ⟨List.prefix_of_prefix_length_le hstart (List.prefix_append _ _) hlen, hne⟩
        rw [if_pos hmatch, if_pos hstretch]
        exact ih (Nat.sub_le_of_le_add hlen) hrest
      · have hstretch : ¬ (needle.isPrefixOf (c :: s) && !needle.isEmpty) = true := by
          rw [Bool.and_eq_true, List.isPrefixOf_iff_prefix] at hmatch ⊢
          exact fun hs => hmatch ⟨hs.1.trans (List.prefix_append _ _), hs.2⟩
        rw [if_neg hmatch] at h
        rw [if_neg hmatch, if_neg hstretch]
        obtain ⟨heq, hkeep⟩ := ih (Nat.zero_le _) h
        exact ⟨congrArg ((c, mark) :: ·) heq, hkeep⟩

theorem eraseMarked_uniform_append {needle : List Char} {mark : Bool} {t : Marked}
    (ht : ∀ x ∈ t.head?, x.2 ≠ mark) {s : List Char}
    (h : keepsEdges needle (Marked.uniform mark s ++ t) = true) :
    eraseMarked needle (Marked.uniform mark s ++ t) =
        Marked.uniform mark (eraseAll needle s) ++ eraseMarked needle t ∧
      keepsEdges needle t = true :=
  eraseMarkedFrom_append ht (Nat.zero_le _) h

theorem eraseMarked_uniform (needle : List Char) (mark : Bool) (s : List Char) :
    eraseMarked needle (Marked.uniform mark s) = Marked.uniform mark (eraseAll needle s) := by
  have hsub := eraseMarkedFrom_sublist needle 0 (Marked.uniform mark s)
  have hmarks : ∀ x ∈ eraseMarked needle (Marked.uniform mark s), x.2 = mark := fun x hx => by
    obtain ⟨c, -, rfl⟩ := List.mem_map.1 (hsub.subset hx)
    rfl
  rw [Marked.eq_uniform hmarks, eraseMarked, plain_eraseMarkedFrom, Marked.plain_uniform]
  rfl

section Woven

-- What a needle may start with.
variable (starts : Char → Bool)

/-- A text that may follow a marked stretch: it starts, if at all, with a character without a mark
that no needle starts with. -/
def Follows (t : Marked) : Prop :=
  ∀ x ∈ t.head?, x.2 = false ∧ starts x.1 = false

/-- A text woven of marked stretches, in order, some of which may be gone. -/
inductive Woven : Marked → List (List Char) → Prop where
  | unmarked (s : List Char) : Woven (Marked.uniform false s) []
  | marked (before : List Char) {s : List Char} {t : Marked} {ss : List (List Char)} : s ≠ [] →
      Follows starts t → Woven t ss →
      Woven (Marked.uniform false before ++ (Marked.uniform true s ++ t)) (s :: ss)
  | gone {t : Marked} {ss : List (List Char)} : Woven t ss → Woven t ([] :: ss)

variable {starts}

/-- What bears a mark are the marked stretches. -/
theorem Woven.inside_eq {t : Marked} {ss : List (List Char)} (h : Woven starts t ss) :
    t.inside = ss.flatten := by
  induction h with
  | unmarked s => simp
  | marked before hne hfollows hrest ih => simp [ih]
  | gone hrest ih => simp [ih]

/-- More text without marks in front. -/
theorem Woven.append {t : Marked} {ss : List (List Char)} (h : Woven starts t ss)
    (before : List Char) : Woven starts (Marked.uniform false before ++ t) ss := by
  induction h with
  | unmarked s => 
    rw [Marked.uniform, Marked.uniform, ← List.map_append]
    exact .unmarked (before ++ s)
  | marked s hne hfollows hrest ih =>
    have hmerge : Marked.uniform false before ++ Marked.uniform false s =
        Marked.uniform false (before ++ s) := List.map_append.symm
    rw [← List.append_assoc, hmerge]
    exact .marked (before ++ s) hne hfollows hrest
  | gone hrest ih => exact .gone ih

theorem Follows.eraseMarked {needle : List Char} (hn : ∀ c ∈ needle.head?, starts c = true)
    {t : Marked} (h : Follows starts t) : Follows starts (eraseMarked needle t) := by
  cases t with
  | nil => exact h
  | cons x t =>
    have hx := h x rfl
    have hhead : needle.head? ≠ some x.1 := fun heq => by
      have := hn x.1 heq
      simp [hx.2] at this
    rw [eraseMarked_cons hhead]
    exact fun y hy => h y hy

/-- **A step of erasing:** each stretch is erased on its own. -/
theorem Woven.eraseMarked {needle : List Char} (hn : ∀ c ∈ needle.head?, starts c = true)
    {t : Marked} {ss : List (List Char)} (h : Woven starts t ss)
    (hk : keepsEdges needle t = true) :
    Woven starts (Text.eraseMarked needle t) (ss.map (eraseAll needle)) := by
  induction h with
  | unmarked s =>
    rw [eraseMarked_uniform]
    exact .unmarked _
  | @marked before s t ss hne hfollows hrest ih =>
    obtain ⟨heq, hk⟩ := eraseMarked_uniform_append (by
      obtain ⟨c, s, rfl⟩ := List.exists_cons_of_ne_nil hne
      simp [Marked.uniform]) hk
    obtain ⟨heq', hk⟩ := eraseMarked_uniform_append (fun x hx => by simp [(hfollows x hx).1]) hk
    rw [heq, heq', List.map_cons]
    by_cases hgone : eraseAll needle s = []
    · rw [hgone]
      exact .gone ((ih hk).append _)
    · exact .marked _ hgone (hfollows.eraseMarked hn) (ih hk)
  | gone hrest ih => exact .gone (ih hk)

end Woven

/-! ### Several needles -/

/-- A marked text after several needles are erased, one after the other. -/
def eraseEach (needles : List (List Char)) (t : Marked) : Marked :=
  needles.foldl (fun t n => eraseMarked n t) t

/-- Does erasing several needles, one after the other, keep the edges of the marked stretches? -/
def keepsAllEdges : List (List Char) → Marked → Bool
  | [], _ => true
  | n :: ns, t => keepsEdges n t && keepsAllEdges ns (eraseMarked n t)

theorem plain_eraseEach (needles : List (List Char)) (t : Marked) :
    (eraseEach needles t).plain = needles.foldl (fun s n => eraseAll n s) t.plain := by
  induction needles generalizing t with
  | nil => rfl
  | cons n ns ih =>
    rw [eraseEach, List.foldl_cons, List.foldl_cons]
    exact (ih _).trans (by rw [eraseMarked, plain_eraseMarkedFrom]; rfl)

theorem eraseEach_sublist (needles : List (List Char)) (t : Marked) :
    (eraseEach needles t).Sublist t := by
  induction needles generalizing t with
  | nil => exact List.Sublist.refl t
  | cons n ns ih => exact (ih _).trans (eraseMarkedFrom_sublist n 0 t)

/-- **A run of erasing:** each stretch is erased on its own, by one needle after the other. -/
theorem Woven.eraseEach {starts : Char → Bool} {needles : List (List Char)}
    (hn : ∀ n ∈ needles, ∀ c ∈ n.head?, starts c = true) {t : Marked} {ss : List (List Char)}
    (h : Woven starts t ss) (hk : keepsAllEdges needles t = true) :
    Woven starts (Text.eraseEach needles t)
      (ss.map fun s => needles.foldl (fun s n => eraseAll n s) s) := by
  induction needles generalizing t ss with
  | nil => simpa [Text.eraseEach] using h
  | cons n ns ih =>
    obtain ⟨hstep, hrest⟩ := Bool.and_eq_true_iff.1 hk
    have hns : ∀ m ∈ ns, ∀ c ∈ m.head?, starts c = true :=
      fun m hm => hn m (List.mem_cons_of_mem _ hm)
    have hrun := ih hns (h.eraseMarked (hn n List.mem_cons_self) hstep) hrest
    rw [List.map_map] at hrun
    exact hrun

/-- Erasing that takes no character without a mark keeps the edges of the marked stretches. -/
theorem keepsEdgesFrom_of_outside {needle : List Char} {k : Nat} {t : Marked}
    (h : t.outside.length ≤ (eraseMarkedFrom needle k t).outside.length) :
    keepsEdgesFrom needle k t = true ∧ ∀ x ∈ t.take k, x.2 = true := by
  induction t generalizing k with
  | nil => cases k <;> simp [keepsEdgesFrom]
  | cons x t ih =>
    -- What is dropped with `x` leaves no more without a mark than `t` has.
    have hdrop : ∀ j,
        (Marked.outside (x :: t)).length ≤ (eraseMarkedFrom needle j t).outside.length →
        x.2 = true ∧ (Marked.outside t).length ≤ (eraseMarkedFrom needle j t).outside.length := by
      intro j hj
      have hle := Marked.length_outside_le (eraseMarkedFrom_sublist needle j t)
      rw [Marked.length_outside_cons] at hj
      cases hx : x.2 with
      | false =>
        rw [hx, if_neg Bool.false_ne_true] at hj
        omega
      | true =>
        rw [hx, if_pos rfl, Nat.zero_add] at hj
        exact ⟨rfl, hj⟩
    cases k with
    | succ k =>
      obtain ⟨hx, hle⟩ := hdrop k h
      obtain ⟨hkeep, htake⟩ := ih hle
      exact ⟨hkeep, fun y hy => by
        rcases List.mem_cons.1 hy with rfl | hy
        · exact hx
        · exact htake y hy⟩
    | zero =>
      refine ⟨?_, by simp⟩
      rw [eraseMarkedFrom] at h
      rw [keepsEdgesFrom]
      split
      · rename_i hmatch
        rw [if_pos hmatch] at h
        obtain ⟨hx, hle⟩ := hdrop _ h
        obtain ⟨hkeep, htake⟩ := ih hle
        rw [Bool.and_eq_true, List.all_eq_true]
        exact ⟨fun y hy => by rw [htake y hy, hx]; rfl, hkeep⟩
      · rename_i hmatch
        rw [if_neg hmatch, Marked.length_outside_cons, Marked.length_outside_cons] at h
        exact (ih (by omega)).1

/-- **Where nothing without a mark is erased, the edges are kept.** -/
theorem keepsAllEdges_of_outside {needles : List (List Char)} {t : Marked}
    (h : t.outside.length ≤ (eraseEach needles t).outside.length) :
    keepsAllEdges needles t = true := by
  induction needles generalizing t with
  | nil => rfl
  | cons n ns ih =>
    have hstep := Marked.length_outside_le (eraseMarkedFrom_sublist n 0 t)
    have hrun := Marked.length_outside_le (eraseEach_sublist ns (eraseMarked n t))
    have hsame : (eraseEach (n :: ns) t).outside = (eraseEach ns (eraseMarked n t)).outside := rfl
    rw [hsame] at h
    rw [eraseMarked] at hrun h
    exact Bool.and_eq_true_iff.2 ⟨(keepsEdgesFrom_of_outside (Nat.le_trans h hrun)).1,
      ih (Nat.le_trans hstep h)⟩

end Text
end CompletionPrompt
