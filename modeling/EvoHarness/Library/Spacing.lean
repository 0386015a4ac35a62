import EvoHarness.Library.PyText

/-! White space as `" ".join(t.split())` sees it: which characters are kept, where
the single blanks stand, and how that behaves under concatenation. -/
namespace EvoHarness.PyText

def ink (t : Text) : Text := t.filter (!isSpace ·)

/-- `t` with each run of white space as one blank and none at its end. `pending` says
whether a run stands before it. -/
def collapse (pending : Bool) : Text → Text
  | [] => []
  | c :: t =>
    if isSpace c then collapse true t
    else (if pending then [' ', c] else [c]) ++ collapse false t

def openRun (pending : Bool) : Text → Bool
  | [] => pending
  | c :: t => openRun (isSpace c) t

def Trimmed (t : Text) : Prop :=
  (∀ c, t.head? = some c → isSpace c = false) ∧ ∀ c, t.getLast? = some c → isSpace c = false

instance (t : Text) : Decidable (Trimmed t) :=
  decidable_of_iff (t.head?.all (!isSpace ·) = true ∧ t.getLast?.all (!isSpace ·) = true) <| by
    simp [Trimmed, Option.all_eq_true]

variable {t u g : Text} {c : Char} {b : Bool}

@[simp] theorem collapse_nil : collapse b [] = [] := rfl

theorem collapse_blank (h : isSpace c = true) : collapse b (c :: t) = collapse true t := by
  simp [collapse, h]

theorem collapse_ink (h : isSpace c = false) :
    collapse b (c :: t) = (if b then [' ', c] else [c]) ++ collapse false t := by
  simp [collapse, h]

theorem collapse_append : collapse b (t ++ u) = collapse b t ++ collapse (openRun b t) u := by
  induction t generalizing b with
  | nil => rfl
  | cons c t ih =>
    cases h : isSpace c
    · simp [collapse, openRun, h, ih]
    · simp [collapse, openRun, h, ih]

theorem isBlank_cons : isBlank (c :: t) = (isSpace c && isBlank t) := rfl

theorem isBlank_iff : isBlank t = true ↔ ∀ c ∈ t, isSpace c = true := by simp [isBlank]

theorem collapse_of_blank (h : isBlank g = true) : collapse b g = [] := by
  induction g generalizing b with
  | nil => rfl
  | cons c g ih =>
    simp only [isBlank_cons, Bool.and_eq_true] at h
    rw [collapse_blank h.1, ih h.2]

theorem openRun_of_blank (h : isBlank g = true) : openRun b g = (b || !g.isEmpty) := by
  induction g generalizing b with
  | nil => simp [openRun]
  | cons c g ih =>
    simp only [isBlank_cons, Bool.and_eq_true] at h
    simp [openRun, h.1, ih h.2]

theorem openRun_append : openRun b (t ++ u) = openRun (openRun b t) u := by
  induction t generalizing b with
  | nil => rfl
  | cons c t ih => exact ih

theorem openRun_last (h : t.getLast? = some c) : openRun b t = isSpace c := by
  obtain ⟨u, rfl⟩ := List.getLast?_eq_some_iff.mp h
  rw [openRun_append]
  rfl

theorem openRun_trimmed (h : Trimmed t) (hne : t ≠ []) : openRun b t = false := by
  obtain ⟨c, hc⟩ := Option.ne_none_iff_exists'.mp (mt List.getLast?_eq_none_iff.mp hne)
  rw [openRun_last hc, h.2 c hc]

@[simp] theorem ink_append : ink (t ++ u) = ink t ++ ink u := List.filter_append ..

theorem ink_of_blank (h : isBlank g = true) : ink g = [] := by
  simp only [ink, List.filter_eq_nil_iff]
  intro c hc
  simp [isBlank_iff.mp h c hc]

theorem ink_eq_nil : ink t = [] ↔ isBlank t = true := by
  simp [ink, isBlank, List.filter_eq_nil_iff]

@[simp] theorem ink_collapse : ink (collapse b t) = ink t := by
  induction t generalizing b with
  | nil => rfl
  | cons c t ih =>
    cases hc : isSpace c
    · rw [collapse_ink hc, ink_append, ih]
      cases b
      · simp [ink, hc]
      · simp [ink, hc, show isSpace ' ' = true from by decide]
    · rw [collapse_blank hc, ih]
      simp [ink, hc]

theorem lstrip_cons_of_space (h : isSpace c = true) : lstrip (c :: t) = lstrip t := by
  simp [lstrip, h]

theorem lstrip_cons_of_ink (h : isSpace c = false) : lstrip (c :: t) = c :: t := by
  simp [lstrip, h]

theorem lstrip_append_of_blank (h : isBlank g = true) : lstrip (g ++ t) = lstrip t := by
  induction g with
  | nil => rfl
  | cons c g ih =>
    simp only [isBlank_cons, Bool.and_eq_true] at h
    rw [List.cons_append, lstrip_cons_of_space h.1, ih h.2]

theorem lstrip_of_head (h : ∀ c, t.head? = some c → isSpace c = false) : lstrip t = t := by
  cases t with
  | nil => rfl
  | cons c t => exact lstrip_cons_of_ink (h c rfl)

theorem exists_lstrip (t : Text) : ∃ g, isBlank g = true ∧ t = g ++ lstrip t := by
  refine ⟨t.takeWhile isSpace, ?_, (List.takeWhile_append_dropWhile).symm⟩
  rw [isBlank_iff]
  exact fun c hc => List.mem_takeWhile_imp hc

theorem exists_rstrip (t : Text) : ∃ g, isBlank g = true ∧ t = rstrip t ++ g := by
  obtain ⟨g, hg, ht⟩ := exists_lstrip t.reverse
  refine ⟨g.reverse, by simpa [isBlank] using hg, ?_⟩
  rw [← t.reverse_reverse]
  conv_lhs => rw [ht]
  simp [rstrip, lstrip]

theorem head_lstrip (h : (lstrip t).head? = some c) : isSpace c = false := by
  induction t with
  | nil => simp [lstrip] at h
  | cons d t ih =>
    cases hd : isSpace d
    · rw [lstrip_cons_of_ink hd] at h
      simpa [← Option.some.inj h] using hd
    · exact ih (by rwa [lstrip_cons_of_space hd] at h)

theorem rstrip_of_last (h : ∀ c, t.getLast? = some c → isSpace c = false) : rstrip t = t := by
  have hr : lstrip t.reverse = t.reverse := lstrip_of_head (by simpa using h)
  simpa [rstrip, lstrip] using congrArg List.reverse hr

theorem strip_of_trimmed (h : Trimmed t) : strip t = t := by
  rw [strip, lstrip_of_head h.1, rstrip_of_last h.2]

theorem ink_lstrip : ink (lstrip t) = ink t := by
  obtain ⟨g, hg, ht⟩ := exists_lstrip t
  conv_rhs => rw [ht]
  rw [ink_append, ink_of_blank hg, List.nil_append]

theorem ink_rstrip : ink (rstrip t) = ink t := by
  obtain ⟨g, hg, ht⟩ := exists_rstrip t
  conv_rhs => rw [ht]
  rw [ink_append, ink_of_blank hg, List.append_nil]

@[simp] theorem ink_strip : ink (strip t) = ink t := by rw [strip, ink_rstrip, ink_lstrip]

theorem rstrip_append_blank (h : isBlank g = true) : rstrip (t ++ g) = rstrip t := by
  have hr : isBlank g.reverse = true := by simpa [isBlank] using h
  simpa [rstrip, lstrip] using congrArg List.reverse (lstrip_append_of_blank (t := t.reverse) hr)

theorem lstrip_of_blank (h : isBlank t = true) : lstrip t = [] := by
  simpa [lstrip] using lstrip_append_of_blank (t := []) h

theorem lstrip_append (h : isBlank t = false) : lstrip (t ++ u) = lstrip t ++ u := by
  induction t with
  | nil => simp [isBlank] at h
  | cons c t ih =>
    cases hc : isSpace c
    · rw [List.cons_append, lstrip_cons_of_ink hc, lstrip_cons_of_ink hc]
      rfl
    · rw [List.cons_append, lstrip_cons_of_space hc, lstrip_cons_of_space hc]
      exact ih (by simpa [isBlank_cons, hc] using h)

theorem rstrip_append_ink (h : isBlank t = false) : rstrip (u ++ t) = u ++ rstrip t := by
  have hblank : isBlank t.reverse = false := by
    rw [isBlank, List.all_reverse]
    exact h
  have hreverse := lstrip_append (u := u.reverse) hblank
  rw [← List.reverse_append] at hreverse
  rw [rstrip, rstrip, show (u ++ t).reverse.dropWhile isSpace = lstrip (u ++ t).reverse from rfl, hreverse]
  simp [lstrip]

theorem isBlank_append : isBlank (t ++ u) = (isBlank t && isBlank u) := List.all_append ..

theorem strip_append_blank (h : isBlank g = true) : strip (t ++ g) = strip t := by
  cases ht : isBlank t
  · rw [strip, lstrip_append ht, rstrip_append_blank h]
    rfl
  · rw [strip, strip, lstrip_of_blank ht, lstrip_of_blank (by rw [isBlank_append, ht, h]; rfl)]

theorem strip_blank_append (h : isBlank g = true) : strip (g ++ t) = strip t := by
  rw [strip, lstrip_append_of_blank h, strip]

theorem strip_eq_nil : strip t = [] ↔ isBlank t = true := by
  constructor
  · intro h
    rw [← ink_eq_nil, ← ink_strip, h]
    rfl
  · intro h
    simpa [strip, lstrip, rstrip] using strip_blank_append (t := []) h

theorem trimmed_strip (t : Text) : Trimmed (strip t) := by
  constructor
  · intro c hc
    obtain ⟨g, hg, ht⟩ := exists_rstrip (lstrip t)
    refine head_lstrip (t := t) ?_
    rw [ht, List.head?_append, show rstrip (lstrip t) = strip t from rfl, hc]
    rfl
  · intro c hc
    have hlast : (lstrip (lstrip t).reverse).head? = some c := by
      rw [← List.getLast?_reverse]
      exact hc
    exact head_lstrip hlast

theorem join_cons {sep w : Text} {ws : List Text} (h : ws ≠ []) :
    join sep (w :: ws) = w ++ sep ++ join sep ws := by
  cases ws with
  | nil => exact absurd rfl h
  | cons v ws => rfl

theorem splitFrom_ne_nil {w : Text} (hw : w ≠ []) : splitFrom w t ≠ [] := by
  induction t generalizing w with
  | nil => simp [splitFrom, hw]
  | cons c t ih =>
    simp only [splitFrom]
    split
    · simp
    · exact ih (by simp)

/-- The words joined again: what `splitFrom` holds back is written first. -/
theorem join_splitFrom (t : Text) :
    (∀ w, w ≠ [] → join [' '] (splitFrom w t) = w ++ collapse false t) ∧
      (∀ w, join [' '] (w :: splitFrom [] t) = w ++ collapse true t) ∧
      join [' '] (splitFrom [] t) = collapse false (lstrip t) := by
  induction t with
  | nil => exact ⟨fun w hw => by simp [splitFrom, hw, join], fun w => by simp [splitFrom, join], rfl⟩
  | cons c t ih =>
    obtain ⟨ihWord, ihGap, ihStart⟩ := ih
    cases hc : isSpace c
    · have hstep : ∀ w, splitFrom w (c :: t) = splitFrom (w ++ [c]) t := by simp [splitFrom, hc]
      refine ⟨fun w hw => ?_, fun w => ?_, ?_⟩
      · rw [hstep, ihWord _ (by simp), collapse_ink hc]
        simp
      · rw [hstep, join_cons (splitFrom_ne_nil (by simp)), ihWord _ (by simp), collapse_ink hc]
        simp
      · rw [hstep, ihWord _ (by simp), lstrip_cons_of_ink hc, collapse_ink hc]
        simp
    · have hstep : ∀ w, splitFrom w (c :: t) = if w = [] then splitFrom [] t else w :: splitFrom [] t := by
        simp [splitFrom, hc]
      refine ⟨fun w hw => ?_, fun w => ?_, ?_⟩
      · rw [hstep, if_neg hw, ihGap, collapse_blank hc]
      · rw [hstep, if_pos rfl, ihGap, collapse_blank hc]
      · rw [hstep, if_pos rfl, ihStart, lstrip_cons_of_space hc]

theorem squeeze_eq (t : Text) : squeeze t = collapse false (lstrip t) := (join_splitFrom t).2.2

theorem squeeze_of_trimmed (h : Trimmed t) : squeeze t = collapse false t := by
  rw [squeeze_eq, lstrip_of_head h.1]

@[simp] theorem ink_squeeze : ink (squeeze t) = ink t := by
  rw [squeeze_eq, ink_collapse, ink_lstrip]

theorem squeeze_strip : squeeze (strip t) = squeeze t := by
  rw [squeeze_eq, squeeze_eq]
  obtain ⟨g, hg, ht⟩ := exists_rstrip (lstrip t)
  rw [lstrip_of_head (trimmed_strip t).1]
  conv_rhs => rw [ht]
  rw [collapse_append, collapse_of_blank hg, List.append_nil]
  rfl

theorem collapse_true (h : ∀ c, t.head? = some c → isSpace c = false) (hne : t ≠ []) :
    collapse true t = ' ' :: collapse false t := by
  cases t with
  | nil => exact absurd rfl hne
  | cons c t => simp [collapse_ink (h c rfl)]

end EvoHarness.PyText
