import EvoHarness.Library.Lines
import EvoHarness.Library.Spacing

/-! A text cut at its line boundaries, one line at a time, and the lines that are not blank. -/
namespace EvoHarness.PyText

def afterBreak : Text → Text
  | [] => []
  | [_] => []
  | c :: d :: t => if c = '\r' ∧ d = '\n' then t else d :: t

def firstLine (t : Text) : Text := t.takeWhile (!isLineBreak ·)

def nextLines (t : Text) : Text := afterBreak (t.dropWhile (!isLineBreak ·))

def EndsLine (t : Text) : Prop := ∀ c ∈ t.getLast?, isLineBreak c = true

def linesBefore (t : Text) : Text := (t.reverse.dropWhile (!isLineBreak ·)).reverse
def ownStart (t : Text) : Text := (t.reverse.takeWhile (!isLineBreak ·)).reverse

def newlines : Text → Text
  | [] => []
  | [c] => if isLineBreak c then ['\n'] else [c]
  | c :: d :: t =>
    if c = '\r' ∧ d = '\n' then '\n' :: newlines t
    else if isLineBreak c then '\n' :: newlines (d :: t)
    else c :: newlines (d :: t)

def inkLines (t : Text) : List Text := ((splitlines t).map strip).filter (· ≠ [])

variable {t u : Text} {c : Char} {ls : List Text}

@[simp] theorem splitlines_nil : splitlines [] = [] := rfl

@[simp] theorem inkLines_nil : inkLines [] = [] := rfl

theorem isSpace_of_isLineBreak (h : isLineBreak c = true) : isSpace c = true := by
  simp only [isLineBreak, isSpace, Bool.or_eq_true, Bool.and_eq_true, decide_eq_true_eq, beq_iff_eq] at h ⊢
  omega

theorem splitlinesFrom_step (line : Text) (h : line ++ t ≠ []) :
    splitlinesFrom line t = (line ++ firstLine t) :: splitlinesFrom [] (nextLines t) := by
  induction t generalizing line with
  | nil =>
    have hline : line ≠ [] := by simpa using h
    simp [splitlinesFrom, firstLine, nextLines, afterBreak, hline]
  | cons c t ih =>
    have hrest := ih (line ++ [c]) (by simp)
    rw [List.append_assoc, List.singleton_append] at hrest
    cases hc : isLineBreak c with
    | true =>
      cases t with
      | nil => simp [splitlinesFrom, firstLine, nextLines, afterBreak, hc]
      | cons d t =>
        rw [splitlinesFrom]
        split
        · rename_i hreturn
          simp [firstLine, nextLines, afterBreak, hreturn, show isLineBreak '\r' = true by decide]
        · rename_i hreturn
          simp [firstLine, nextLines, afterBreak, hc, hreturn]
    | false =>
      have hfirst : firstLine (c :: t) = c :: firstLine t := by simp [firstLine, hc]
      have hnext : nextLines (c :: t) = nextLines t := by simp [nextLines, hc]
      rw [hfirst, hnext, ← hrest]
      have hreturn : c ≠ '\r' := by
        intro he
        rw [he] at hc
        exact absurd hc (by decide)
      cases t with
      | nil => simp [splitlinesFrom, hc]
      | cons d t => simp [splitlinesFrom, hc, hreturn]

theorem splitlines_step (h : t ≠ []) : splitlines t = firstLine t :: splitlines (nextLines t) :=
  splitlinesFrom_step [] h

theorem length_afterBreak (t : Text) : (afterBreak t).length ≤ t.length - 1 := by
  cases t with
  | nil => simp [afterBreak]
  | cons c t =>
    cases t with
    | nil => simp [afterBreak]
    | cons d t =>
      rw [afterBreak]
      split
      · simp
      · simp

theorem length_nextLines (h : t ≠ []) : (nextLines t).length < t.length := by
  have hafter := length_afterBreak (t.dropWhile (!isLineBreak ·))
  have hdrop := (List.dropWhile_suffix (l := t) (!isLineBreak ·)).length_le
  have hpos := List.length_pos_iff.mpr h
  unfold nextLines
  omega

theorem linesInduction {motive : Text → Prop} (nil : motive [])
    (step : ∀ t, t ≠ [] → motive (nextLines t) → motive t) (t : Text) : motive t :=
  if h : t = [] then h ▸ nil else step t h (linesInduction nil step (nextLines t))
termination_by t.length
decreasing_by exact length_nextLines h

theorem unbroken_of_mem_splitlines : ∀ line ∈ splitlines t, ∀ c ∈ line, isLineBreak c = false := by
  induction t using linesInduction with
  | nil => simp
  | step t ht ih =>
    intro line hline c hc
    rw [splitlines_step ht] at hline
    cases List.mem_cons.mp hline with
    | inl h =>
      rw [h] at hc
      simpa using List.mem_takeWhile_imp hc
    | inr h => exact ih line h c hc

theorem firstLine_append (h : ∃ c ∈ t, isLineBreak c = true) : firstLine (t ++ u) = firstLine t := by
  induction t with
  | nil => simp at h
  | cons c t ih =>
    cases hc : isLineBreak c with
    | true => simp [firstLine, hc]
    | false =>
      have ht : ∃ c ∈ t, isLineBreak c = true := by simpa [hc] using h
      have hcons : ∀ s : Text, firstLine (c :: s) = c :: firstLine s := fun s => by simp [firstLine, hc]
      rw [List.cons_append, hcons, hcons, ih ht]

theorem dropWhile_append_break (h : ∃ c ∈ t, isLineBreak c = true) :
    ∃ c v, t.dropWhile (!isLineBreak ·) = c :: v ∧ isLineBreak c = true ∧ c :: v <:+ t ∧
      (t ++ u).dropWhile (!isLineBreak ·) = c :: (v ++ u) := by
  induction t with
  | nil => simp at h
  | cons c t ih =>
    cases hc : isLineBreak c with
    | true => exact ⟨c, t, by simp [hc], hc, List.suffix_rfl, by simp [hc]⟩
    | false =>
      obtain ⟨d, v, hdrop, hd, hsuffix, hall⟩ := ih (by simpa [hc] using h)
      exact ⟨d, v, by simpa [hc] using hdrop, hd, hsuffix.trans (List.suffix_cons c t), by simpa [hc] using hall⟩

theorem afterBreak_append (v : Text) (h : ¬ (c = '\r' ∧ v = [] ∧ u.head? = some '\n')) :
    afterBreak (c :: (v ++ u)) = afterBreak (c :: v) ++ u := by
  cases v with
  | nil =>
    cases u with
    | nil => rfl
    | cons d u =>
      have hreturn : ¬ (c = '\r' ∧ d = '\n') := by simpa using h
      have hbehind : afterBreak (c :: d :: u) = d :: u := if_neg hreturn
      exact hbehind
  | cons d v =>
    rw [List.cons_append, afterBreak, afterBreak]
    split
    · rfl
    · rfl

theorem afterBreak_suffix (v : Text) : afterBreak (c :: v) <:+ v := by
  cases v with
  | nil => exact List.suffix_rfl
  | cons d v =>
    rw [afterBreak]
    split
    · exact List.suffix_cons d v
    · exact List.suffix_rfl

theorem EndsLine.suffix {v : Text} (h : EndsLine t) (hv : v <:+ t) : EndsLine v := by
  obtain ⟨front, hfront⟩ := hv
  intro c hc
  refine h c ?_
  rw [← hfront, List.getLast?_append, show v.getLast? = some c from hc]
  rfl

theorem EndsLine.exists_break (h : EndsLine t) (hne : t ≠ []) : ∃ c ∈ t, isLineBreak c = true := by
  have hlast : t.getLast? = some (t.getLast hne) := List.getLast?_eq_some_getLast hne
  exact ⟨_, List.getLast_mem hne, h _ hlast⟩

theorem splitlines_endsLine (h : EndsLine t) (hu : ¬ (t.getLast? = some '\r' ∧ u.head? = some '\n')) :
    splitlines (t ++ u) = splitlines t ++ splitlines u := by
  induction t using linesInduction with
  | nil => rfl
  | step t ht ih =>
    have hbreak := h.exists_break ht
    obtain ⟨c, v, hdrop, hc, hsuffix, hall⟩ := dropWhile_append_break (u := u) hbreak
    have hnext : nextLines t <:+ t := by
      rw [nextLines, hdrop]
      exact ((afterBreak_suffix v).trans (List.suffix_cons c v)).trans hsuffix
    have happ : nextLines (t ++ u) = nextLines t ++ u := by
      rw [nextLines, nextLines, hall, hdrop]
      refine afterBreak_append v fun hreturn => hu ⟨?_, hreturn.2.2⟩
      obtain ⟨front, hfront⟩ := hsuffix
      rw [← hfront, hreturn.1, hreturn.2.1]
      simp
    have hlast : ¬ ((nextLines t).getLast? = some '\r' ∧ u.head? = some '\n') := by
      intro hboth
      obtain ⟨front, hfront⟩ := hnext
      refine hu ⟨?_, hboth.2⟩
      rw [← hfront, List.getLast?_append, hboth.1]
      rfl
    rw [splitlines_step (by simp [ht]), splitlines_step ht, firstLine_append hbreak, happ, ih (h.suffix hnext) hlast]
    rfl

theorem linesBefore_append (t : Text) : linesBefore t ++ ownStart t = t := by
  rw [linesBefore, ownStart, ← List.reverse_append, List.takeWhile_append_dropWhile, List.reverse_reverse]

theorem endsLine_linesBefore (t : Text) : EndsLine (linesBefore t) := by
  intro c hc
  rw [linesBefore, List.getLast?_reverse] at hc
  have hfails := List.head?_dropWhile_not (!isLineBreak ·) t.reverse
  rw [show (t.reverse.dropWhile (!isLineBreak ·)).head? = some c from hc] at hfails
  simpa using hfails

theorem unbroken_ownStart (t : Text) : ∀ c ∈ ownStart t, isLineBreak c = false := by
  intro c hc
  simpa using List.mem_takeWhile_imp (List.mem_reverse.mp hc)

theorem splitlines_last (hne : ownStart t ++ u ≠ []) (hu : ∀ c ∈ u, isLineBreak c = false) :
    splitlines (t ++ u) = splitlines (linesBefore t) ++ [ownStart t ++ u] := by
  have hunbroken : ∀ c ∈ ownStart t ++ u, isLineBreak c = false := by
    intro c hc
    cases List.mem_append.mp hc with
    | inl hown => exact unbroken_ownStart t c hown
    | inr hmem => exact hu c hmem
  have hhead : (ownStart t ++ u).head? ≠ some '\n' := by
    intro hnewline
    have hbreak := hunbroken '\n' (List.mem_of_mem_head? hnewline)
    exact absurd hbreak (by decide)
  have happ := splitlines_endsLine (u := ownStart t ++ u) (endsLine_linesBefore t) fun hboth => hhead hboth.2
  rw [← List.append_assoc, linesBefore_append] at happ
  rw [happ, splitlines_single hunbroken hne]

theorem firstLine_break {c : Char} {f : Text} (v : Text) (hf : ∀ d ∈ f, isLineBreak d = false) (hc : isLineBreak c = true) :
    firstLine (f ++ c :: v) = f ∧ nextLines (f ++ c :: v) = afterBreak (c :: v) := by
  constructor
  · rw [firstLine, List.takeWhile_append_of_pos fun d hd => by simp [hf d hd]]
    simp [hc]
  · rw [nextLines, List.dropWhile_append_of_pos fun d hd => by simp [hf d hd]]
    simp [hc]

theorem exists_front (h : t ≠ []) : ∃ front, t = front ++ nextLines t ∧ splitlines front = [firstLine t] ∧
    (nextLines t = [] ∨ EndsLine front) ∧ ¬ (front.getLast? = some '\r' ∧ (nextLines t).head? = some '\n') := by
  have hfirst : ∀ d ∈ firstLine t, isLineBreak d = false := fun d hd => by simpa using List.mem_takeWhile_imp hd
  have hsplit : firstLine t ++ t.dropWhile (!isLineBreak ·) = t := List.takeWhile_append_dropWhile
  cases hdrop : t.dropWhile (!isLineBreak ·) with
  | nil =>
    have hnext : nextLines t = [] := by rw [nextLines, hdrop]; rfl
    refine ⟨t, by simp [hnext], ?_, Or.inl hnext, by simp [hnext]⟩
    rw [splitlines_step h, hnext]
    rfl
  | cons c v =>
    rw [hdrop] at hsplit
    have hc : isLineBreak c = true := by
      have hfails := List.head?_dropWhile_not (!isLineBreak ·) t
      rw [hdrop] at hfails
      simpa using hfails
    have hnext : nextLines t = afterBreak (c :: v) := by rw [nextLines, hdrop]
    have hends : ∀ e : Text, e ≠ [] → (∀ d ∈ e, isLineBreak d = true) → EndsLine (firstLine t ++ e) := by
      intro e he hbreaks d hd
      rw [List.getLast?_append_of_ne_nil _ he] at hd
      exact hbreaks d (List.mem_of_getLast? hd)
    have hlines : ∀ e : Text, afterBreak (c :: e) = [] → splitlines (firstLine t ++ c :: e) = [firstLine t] := by
      intro e he
      have hbreak := firstLine_break e hfirst hc
      rw [splitlines_step (by simp), hbreak.1, hbreak.2, he]
      rfl
    by_cases hreturn : c = '\r' ∧ v.head? = some '\n'
    · cases v with
      | nil => exact absurd hreturn.2 (by simp)
      | cons d w =>
        have hd : d = '\n' := by simpa using hreturn.2
        have hbehind : afterBreak (c :: d :: w) = w := if_pos ⟨hreturn.1, hd⟩
        refine ⟨firstLine t ++ [c, d], ?_, hlines [d] (if_pos ⟨hreturn.1, hd⟩), Or.inr (hends _ (by simp) ?_), ?_⟩
        · rw [hnext, hbehind, List.append_assoc]
          exact hsplit.symm
        · intro e he
          cases List.mem_cons.mp he with
          | inl h =>
            rw [h]
            exact hc
          | inr h =>
            rw [List.mem_singleton.mp h, hd]
            decide
        · rw [List.getLast?_append_of_ne_nil _ (by simp), hd]
          simp
    · have hbehind : afterBreak (c :: v) = v := by
        cases v with
        | nil => rfl
        | cons d w => exact if_neg fun hboth => hreturn ⟨hboth.1, by simp [hboth.2]⟩
      refine ⟨firstLine t ++ [c], ?_, hlines [] rfl, Or.inr (hends _ (by simp) (by simpa using hc)), ?_⟩
      · rw [hnext, hbehind, List.append_assoc]
        exact hsplit.symm
      · rw [List.getLast?_append_of_ne_nil _ (by simp), hnext, hbehind]
        intro hboth
        exact hreturn ⟨by simpa using hboth.1, hboth.2⟩

theorem splitlines_eq_append {ks : List Text} (h : splitlines t = ks ++ ls) :
    ∃ u v, t = u ++ v ∧ splitlines u = ks ∧ splitlines v = ls ∧ (v = [] ∨ EndsLine u) := by
  induction ks generalizing t with
  | nil => exact ⟨[], t, rfl, rfl, h, Or.inr (by simp [EndsLine])⟩
  | cons k ks ih =>
    have ht : t ≠ [] := by
      intro hnil
      rw [hnil] at h
      cases h
    rw [splitlines_step ht, List.cons_append] at h
    injection h with hk hrest
    obtain ⟨u, v, hnext, hu, hv, hended⟩ := ih hrest
    obtain ⟨front, hfront, hline, hfended, hreturn⟩ := exists_front ht
    refine ⟨front ++ u, v, ?_, ?_, hv, ?_⟩
    · rw [List.append_assoc, ← hnext]
      exact hfront
    · cases hfended with
      | inl hnil =>
        rw [hnil] at hnext
        obtain ⟨hunil, _⟩ := List.append_eq_nil_iff.mp hnext.symm
        rw [← hu, hunil, List.append_nil, hline, hk]
        rfl
      | inr hfended =>
        rw [splitlines_endsLine hfended, hline, hu, hk]
        · rfl
        · intro hboth
          refine hreturn ⟨hboth.1, ?_⟩
          rw [hnext, List.head?_append, hboth.2]
          rfl
    · cases hended with
      | inl hnil => exact Or.inl hnil
      | inr hended =>
        cases hfended with
        | inl hnil =>
          rw [hnil] at hnext
          exact Or.inl (List.append_eq_nil_iff.mp hnext.symm).2
        | inr hfended =>
          refine Or.inr ?_
          by_cases hu : u = []
          · rw [hu, List.append_nil]
            exact hfended
          · intro c hc
            rw [List.getLast?_append_of_ne_nil _ hu] at hc
            exact hended c hc

theorem newlines_cons (h : ¬ (c = '\r' ∧ t.head? = some '\n')) :
    newlines (c :: t) = (if isLineBreak c then '\n' else c) :: newlines t := by
  cases t with
  | nil =>
    rw [newlines, newlines]
    split
    · rfl
    · rfl
  | cons d t =>
    rw [newlines, if_neg fun hboth => h ⟨hboth.1, by simp [hboth.2]⟩]
    split
    · rfl
    · rfl

theorem newlines_return (t : Text) : newlines ('\r' :: '\n' :: t) = '\n' :: newlines t := if_pos ⟨rfl, rfl⟩

theorem newlinesInduction {motive : Text → Prop} (nil : motive []) (pair : ∀ t, motive t → motive ('\r' :: '\n' :: t))
    (step : ∀ c t, ¬ (c = '\r' ∧ t.head? = some '\n') → motive t → motive (c :: t)) (t : Text) : motive t := by
  induction t using newlines.induct with
  | case1 => exact nil
  | case2 c hc => exact step c [] (by simp) nil
  | case3 c hc => exact step c [] (by simp) nil
  | case4 c d t hreturn ih =>
    rw [hreturn.1, hreturn.2]
    exact pair t ih
  | case5 c d t hreturn hc ih => exact step c (d :: t) (by simpa using hreturn) ih
  | case6 c d t hreturn hc ih => exact step c (d :: t) (by simpa using hreturn) ih

theorem newlines_append (h : ¬ (t.getLast? = some '\r' ∧ u.head? = some '\n')) :
    newlines (t ++ u) = newlines t ++ newlines u := by
  have hbehind : ∀ front s : Text, front ++ s = t → ¬ (s.getLast? = some '\r' ∧ u.head? = some '\n') := by
    intro front s hs hboth
    refine h ⟨?_, hboth.2⟩
    rw [← hs, List.getLast?_append, hboth.1]
    rfl
  induction t using newlinesInduction with
  | nil => rfl
  | pair t ih =>
    have hrest := hbehind ['\r', '\n'] t rfl
    rw [List.cons_append, List.cons_append, newlines_return, newlines_return,
      ih hrest fun front s hs => hbehind (['\r', '\n'] ++ front) s (congrArg (['\r', '\n'] ++ ·) hs)]
    rfl
  | step c t hc ih =>
    have hrest := hbehind [c] t rfl
    have hcons : ¬ (c = '\r' ∧ (t ++ u).head? = some '\n') := by
      intro hboth
      cases t with
      | nil => exact h ⟨by simp [hboth.1], hboth.2⟩
      | cons d t => exact hc hboth
    rw [List.cons_append, newlines_cons hcons, newlines_cons hc,
      ih hrest fun front s hs => hbehind ([c] ++ front) s (congrArg ([c] ++ ·) hs)]
    rfl

theorem newlines_eq_self_iff (t : Text) : newlines t = t ↔ ∀ c ∈ t, isLineBreak c = true → c = '\n' := by
  induction t using newlinesInduction with
  | nil => simp [newlines]
  | pair t ih =>
    rw [newlines_return]
    constructor
    · intro h
      exact absurd (List.cons.inj h).1 (by decide)
    · intro h
      exact absurd (h '\r' List.mem_cons_self (by decide)) (by decide)
  | step c t hc ih =>
    rw [newlines_cons hc, List.cons.injEq, ih, List.forall_mem_cons]
    refine and_congr_left fun _ => ?_
    split
    · rename_i hbreak
      exact ⟨fun h _ => h.symm, fun h => (h hbreak).symm⟩
    · rename_i hbreak
      exact ⟨fun _ h => absurd h hbreak, fun _ => rfl⟩

theorem ink_break (hc : isLineBreak c = true) (t : Text) : ink (c :: t) = ink t := by
  simp [ink, isSpace_of_isLineBreak hc]

theorem ink_newlines (t : Text) : ink (newlines t) = ink t := by
  have hnewline : isLineBreak '\n' = true := by decide
  induction t using newlinesInduction with
  | nil => rfl
  | pair t ih => rw [newlines_return, ink_break hnewline, ink_break (by decide), ink_break hnewline, ih]
  | step c t hc ih =>
    rw [newlines_cons hc]
    split
    · rename_i hbreak
      rw [ink_break hnewline, ink_break hbreak, ih]
    · have hcons : ∀ s : Text, ink (c :: s) = ink [c] ++ ink s := fun s => ink_append (t := [c]) (u := s)
      rw [hcons, ih, ← hcons]

theorem newlines_break (hc : isLineBreak c = true) (t : Text) : newlines (c :: t) = '\n' :: newlines (afterBreak (c :: t)) := by
  by_cases hreturn : c = '\r' ∧ t.head? = some '\n'
  · cases t with
    | nil => exact absurd hreturn.2 (by simp)
    | cons d t =>
      have hd : d = '\n' := by simpa using hreturn.2
      have hbehind : afterBreak (c :: d :: t) = t := if_pos ⟨hreturn.1, hd⟩
      rw [hbehind, hreturn.1, hd, newlines_return]
  · have hbehind : afterBreak (c :: t) = t := by
      cases t with
      | nil => rfl
      | cons d t => exact if_neg fun hboth => hreturn ⟨hboth.1, by simp [hboth.2]⟩
    rw [newlines_cons hreturn, if_pos hc, hbehind]

theorem newlines_eq_join (t : Text) :
    newlines t = join ['\n'] (splitlines t) ∨ newlines t = join ['\n'] (splitlines t) ++ ['\n'] := by
  induction t using linesInduction with
  | nil => exact Or.inl rfl
  | step t ht ih =>
    have hunbroken : ∀ d ∈ firstLine t, isLineBreak d = false := fun d hd => by simpa using List.mem_takeWhile_imp hd
    have hplain : newlines (firstLine t) = firstLine t :=
      (newlines_eq_self_iff _).mpr fun c hc hbreak => absurd (hunbroken c hc) (by simp [hbreak])
    have hsplit : firstLine t ++ t.dropWhile (!isLineBreak ·) = t := List.takeWhile_append_dropWhile
    rw [splitlines_step ht]
    cases hdrop : t.dropWhile (!isLineBreak ·) with
    | nil =>
      have hnext : nextLines t = [] := by rw [nextLines, hdrop]; rfl
      rw [hdrop, List.append_nil] at hsplit
      rw [hnext]
      refine Or.inl ?_
      rw [hsplit] at hplain ⊢
      exact hplain
    | cons c v =>
      have hc : isLineBreak c = true := by
        have hfails := List.head?_dropWhile_not (!isLineBreak ·) t
        rw [hdrop] at hfails
        simpa using hfails
      have hall : newlines t = firstLine t ++ '\n' :: newlines (nextLines t) := by
        have hfirst : (firstLine t).getLast? ≠ some '\r' := by
          intro hlast
          have hbreak := hunbroken '\r' (List.mem_of_getLast? hlast)
          exact absurd hbreak (by decide)
        conv_lhs => rw [← hsplit, newlines_append fun hboth => hfirst hboth.1]
        rw [hplain, hdrop, newlines_break hc, nextLines, hdrop]
      by_cases hnext : nextLines t = []
      · rw [hall, hnext]
        exact Or.inr rfl
      · have hlines : splitlines (nextLines t) ≠ [] := by
          rw [splitlines_step hnext]
          simp
        rw [join_cons hlines, hall]
        cases ih with
        | inl h =>
          rw [h]
          exact Or.inl (by simp)
        | inr h =>
          rw [h]
          exact Or.inr (by simp)

theorem rstrip_join (t : Text) : rstrip (join ['\n'] (splitlines t)) = rstrip (newlines t) := by
  cases newlines_eq_join t with
  | inl h => rw [h]
  | inr h => rw [h, rstrip_append_blank (by decide)]

theorem rstrip_last (t : Text) : rstrip t = [] ∨ ∃ s c, rstrip t = s ++ [c] ∧ isSpace c = false := by
  cases List.eq_nil_or_concat (rstrip t) with
  | inl h => exact Or.inl h
  | inr h =>
    obtain ⟨s, c, hs⟩ := h
    refine Or.inr ⟨s, c, by simpa using hs, ?_⟩
    refine head_lstrip (t := t.reverse) ?_
    have hreverse : lstrip t.reverse = (rstrip t).reverse := by simp [rstrip, lstrip]
    rw [hreverse, hs]
    simp

theorem rstrip_newlines (t : Text) : rstrip (newlines t) = newlines (rstrip t) := by
  obtain ⟨g, hg, ht⟩ := exists_rstrip t
  have hblank : isBlank (newlines g) = true := by rw [← ink_eq_nil, ink_newlines, ink_eq_nil, hg]
  have hlast : ¬ ((rstrip t).getLast? = some '\r' ∧ g.head? = some '\n') := by
    intro hboth
    cases rstrip_last t with
    | inl h => simp [h] at hboth
    | inr h =>
      obtain ⟨s, c, hs, hc⟩ := h
      rw [hs, List.getLast?_concat] at hboth
      rw [Option.some.inj hboth.1] at hc
      exact absurd hc (by decide)
  conv_lhs => rw [ht, newlines_append hlast, rstrip_append_blank hblank]
  refine rstrip_of_last fun c hc => ?_
  cases rstrip_last t with
  | inl h =>
    rw [h] at hc
    cases hc
  | inr h =>
    obtain ⟨s, d, hs, hd⟩ := h
    have hbreak : isLineBreak d = false := by
      rw [← Bool.not_eq_true]
      intro hbreak
      rw [isSpace_of_isLineBreak hbreak] at hd
      cases hd
    have hnewline : d ≠ '\n' := by
      intro he
      rw [he] at hd
      exact absurd hd (by decide)
    rw [hs, newlines_append (by simp [hnewline]), newlines, if_neg (by simp [hbreak]), List.getLast?_concat] at hc
    rw [← Option.some.inj hc]
    exact hd

theorem inkLines_step (h : t ≠ []) : inkLines t =
    if strip (firstLine t) = [] then inkLines (nextLines t) else strip (firstLine t) :: inkLines (nextLines t) := by
  rw [inkLines, splitlines_step h, List.map_cons, List.filter_cons]
  split
  · rename_i hink
    rw [if_neg (by simpa using hink)]
    rfl
  · rename_i hblank
    rw [if_pos (by simpa using hblank)]
    rfl

theorem inkLines_cons_space (hc : isSpace c = true) : inkLines (c :: t) = inkLines t := by
  cases hbreak : isLineBreak c with
  | true =>
    have hfirst : firstLine (c :: t) = [] := by simp [firstLine, hbreak]
    have hnext : nextLines (c :: t) = afterBreak (c :: t) := by simp [nextLines, hbreak]
    rw [inkLines_step (by simp), hfirst, if_pos (by rfl), hnext]
    cases t with
    | nil => rfl
    | cons d t =>
      rw [afterBreak]
      split
      · rename_i hreturn
        have hd : isLineBreak d = true := by
          rw [hreturn.2]
          decide
        have hblank : firstLine (d :: t) = [] := by simp [firstLine, hd]
        have hbehind : nextLines (d :: t) = t := by
          rw [hreturn.2]
          cases t with
          | nil => rfl
          | cons e t => simp [nextLines, afterBreak, show isLineBreak '\n' = true by decide]
        rw [inkLines_step (t := d :: t) (by simp), hblank, if_pos (by rfl), hbehind]
      · rfl
  | false =>
    have hfirst : firstLine (c :: t) = c :: firstLine t := by simp [firstLine, hbreak]
    have hnext : nextLines (c :: t) = nextLines t := by simp [nextLines, hbreak]
    have hstrip : strip (c :: firstLine t) = strip (firstLine t) := by
      have hblank : isBlank [c] = true := by simp [isBlank, hc]
      exact strip_blank_append (t := firstLine t) hblank
    rw [inkLines_step (by simp), hfirst, hnext, hstrip]
    cases t with
    | nil => rfl
    | cons d t => exact (inkLines_step (t := d :: t) (by simp)).symm

theorem inkLines_blank_append (h : isBlank t = true) : inkLines (t ++ u) = inkLines u := by
  induction t with
  | nil => rfl
  | cons c t ih =>
    rw [isBlank_cons, Bool.and_eq_true] at h
    rw [List.cons_append, inkLines_cons_space h.1, ih h.2]

theorem firstLine_of_unbroken (h : ∀ c ∈ t, isLineBreak c = false) : firstLine t = t :=
  List.takeWhile_eq_self_iff.mpr fun c hc => by simp [h c hc]

theorem nextLines_of_unbroken (h : ∀ c ∈ t, isLineBreak c = false) : nextLines t = [] := by
  rw [nextLines, List.dropWhile_eq_nil_iff.mpr fun c hc => by simp [h c hc]]
  rfl

theorem inkLines_append_space (hc : isSpace c = true) : inkLines (t ++ [c]) = inkLines t := by
  induction t using linesInduction with
  | nil => exact inkLines_cons_space hc
  | step t ht ih =>
    by_cases hbreak : ∃ d ∈ t, isLineBreak d = true
    · obtain ⟨d, v, hdrop, _, _, hall⟩ := dropWhile_append_break (u := [c]) hbreak
      have hbehind : inkLines (nextLines (t ++ [c])) = inkLines (nextLines t) := by
        by_cases hreturn : d = '\r' ∧ v = [] ∧ [c].head? = some '\n'
        · rw [nextLines, nextLines, hall, hdrop, hreturn.1, hreturn.2.1]
          have hnewline : c = '\n' := by simpa using hreturn.2.2
          rw [hnewline]
          rfl
        · have happ : nextLines (t ++ [c]) = nextLines t ++ [c] := by
            rw [nextLines, nextLines, hall, hdrop]
            exact afterBreak_append v hreturn
          rw [happ]
          exact ih
      rw [inkLines_step (by simp), inkLines_step ht, firstLine_append hbreak, hbehind]
    · have hunbroken : ∀ d ∈ t, isLineBreak d = false := by simpa using hbreak
      have halone : inkLines t = if strip t = [] then [] else [strip t] := by
        rw [inkLines_step ht, firstLine_of_unbroken hunbroken, nextLines_of_unbroken hunbroken]
        rfl
      have hblank : isBlank [c] = true := by simp [isBlank, hc]
      cases hend : isLineBreak c with
      | true =>
        have hfirst : firstLine (t ++ [c]) = t := by
          rw [firstLine, List.takeWhile_append_of_pos fun d hd => by simp [hunbroken d hd]]
          simp [hend]
        have hnext : nextLines (t ++ [c]) = [] := by
          rw [nextLines, List.dropWhile_append_of_pos fun d hd => by simp [hunbroken d hd]]
          simp [hend, afterBreak]
        rw [inkLines_step (by simp), hfirst, hnext, halone]
        rfl
      | false =>
        have hall : ∀ d ∈ t ++ [c], isLineBreak d = false := by
          intro d hd
          cases List.mem_append.mp hd with
          | inl h => exact hunbroken d h
          | inr h => rw [List.mem_singleton.mp h, hend]
        rw [inkLines_step (by simp), firstLine_of_unbroken hall, nextLines_of_unbroken hall,
          strip_append_blank hblank, halone]
        rfl

theorem inkLines_append_blank (h : isBlank u = true) : inkLines (t ++ u) = inkLines t := by
  induction u using List.reverseRecOn with
  | nil => rw [List.append_nil]
  | append_singleton u c ih =>
    rw [isBlank_append, Bool.and_eq_true] at h
    have hc : isSpace c = true := by simpa [isBlank] using h.2
    rw [← List.append_assoc, inkLines_append_space hc, ih h.1]

theorem inkLines_strip (t : Text) : inkLines (strip t) = inkLines t := by
  obtain ⟨g, hg, hleft⟩ := exists_lstrip t
  obtain ⟨k, hk, hright⟩ := exists_rstrip (lstrip t)
  conv_rhs => rw [hleft, hright]
  rw [inkLines_blank_append hg, inkLines_append_blank hk]
  rfl

theorem inkLines_join (h : ∀ line ∈ ls, ∀ c ∈ line, isLineBreak c = false) :
    inkLines (join ['\n'] ls) = (ls.map strip).filter (· ≠ []) := by
  induction ls with
  | nil => rfl
  | cons line ls ih =>
    rw [List.forall_mem_cons] at h
    cases ls with
    | nil =>
      by_cases hline : line = []
      · rw [hline]
        rfl
      · rw [inkLines, join, splitlines_single h.1 hline]
    | cons k ls =>
      have hjoin : join ['\n'] (line :: k :: ls) = line ++ '\n' :: join ['\n'] (k :: ls) := by simp [join]
      rw [hjoin, inkLines, splitlines_append _ h.1 (by decide) (by decide), List.map_cons, List.filter_cons,
        List.map_cons, List.filter_cons, ← ih h.2]
      rfl

theorem ink_join (ls : List Text) : ink (join ['\n'] ls) = ls.flatMap ink := by
  induction ls with
  | nil => rfl
  | cons line ls ih =>
    cases ls with
    | nil => simp [join]
    | cons k ls =>
      have hnewline : ink ['\n'] = [] := rfl
      rw [join, ink_append, ink_append, ih, hnewline, List.append_nil]
      rfl

end EvoHarness.PyText
