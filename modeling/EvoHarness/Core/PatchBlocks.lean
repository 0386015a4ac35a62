import EvoHarness.Core.PatchLines
import EvoHarness.Library.Lines

/-! The blocks an answer is written as, and the blocks the pattern reads out of it. -/
namespace EvoHarness.Core
open PyText

def openingLine : Text := "<<<<<<< ORIGINAL".toList
def dividerLine : Text := "=======".toList
def closingLine : Text := ">>>>>>> UPDATED".toList

def isAnswerMarker (ln : Text) : Bool := strip ln == openingLine || strip ln == dividerLine || strip ln == closingLine

/-- A block: the lines of its two sides. The ORIGINAL side quotes something, and no line is a marker. -/
structure Block where
  original : List Text
  updated : List Text
  oneLine : ∀ ln ∈ original ++ updated, '\n' ∉ ln
  unmarked : ∀ ln ∈ original ++ updated, isAnswerMarker ln = false
  quotes : ∃ ln ∈ original, strip ln ≠ []

def Block.written (b : Block) : Text :=
  unlines (openingLine :: b.original ++ dividerLine :: b.updated ++ [closingLine])

structure Answer where
  header : List Text
  blocks : List Block
  oneLine : ∀ ln ∈ header, '\n' ∉ ln
  unopened : ∀ ln ∈ header, contains "<<<<<<<".toList ln = false

def Answer.text (a : Answer) : Text := unlines a.header ++ a.blocks.flatMap Block.written

def trimLines (lines : List Text) : List Text :=
  ((lines.dropWhile fun ln => strip ln = []).reverse.dropWhile fun ln => strip ln = []).reverse

def SameSides (found : Text × Text) (b : Block) : Prop :=
  trimLines (found.1.splitOn '\n') = trimLines b.original ∧ trimLines (found.2.splitOn '\n') = trimLines b.updated

def ParsedAsWritten (a : Answer) : Prop :=
  List.Forall₂ SameSides (patchBlocks a.text) a.blocks ∧
    ∀ found ∈ patchBlocks a.text, ∀ text start stop replace, locate text found = .edit start stop replace →
      ∀ ln ∈ replace.splitOn '\n', isAnswerMarker ln = false

def readsAsClosing (lines : List Text) : Bool := (closingAt ('\n' :: unlines lines)).isSome

/-- Behind its first line that is not blank, a line of the side reads as the closing marker. -/
def ClosesEarly (updated : List Text) : Prop :=
  ∃ before after, updated = before ++ after ∧ (∃ ln ∈ before, strip ln ≠ []) ∧ (∃ ln ∈ after, strip ln ≠ []) ∧
    readsAsClosing after = true

/-- The UPDATED side ends where it should: it has ink and does not close early, or it is blank lines, at least one,
with no block behind. -/
def EndsProperly (b : Block) (behind : List Block) : Prop :=
  if ∀ ln ∈ b.updated, strip ln = [] then b.updated ≠ [] ∧ behind = [] else ¬ ClosesEarly b.updated

def AllEndProperly : List Block → Prop
  | [] => True
  | b :: blocks => EndsProperly b blocks ∧ AllEndProperly blocks

variable {t u w x y z mark : Text} {ls : List Text}

theorem prefix_line (hm : '\n' ∉ mark) : mark <+: x ++ '\n' :: z ↔ mark <+: x := by
  constructor
  · intro h
    by_cases hle : mark.length ≤ x.length
    · exact List.prefix_of_prefix_length_le h (List.prefix_append x _) hle
    · have hline : x ++ ['\n'] <+: x ++ '\n' :: z := ⟨z, by simp⟩
      have hhere := List.prefix_of_prefix_length_le hline h (by rw [List.length_append, List.length_singleton]; omega)
      exact absurd (hhere.subset (List.mem_append_right _ List.mem_cons_self)) hm
  · intro h
    exact h.trans (List.prefix_append x _)

theorem isBlank_of_blank_lines (h : ∀ ln ∈ ls, strip ln = []) : isBlank (unlines ls) = true := by
  induction ls with
  | nil => rfl
  | cons ln ls ih =>
    rw [List.forall_mem_cons] at h
    rw [unlines_cons, isBlank_append, isBlank_cons, strip_eq_nil.mp h.1, ih h.2]
    rfl

theorem lstrip_ink_line (h : strip t ≠ []) (u : Text) : lstrip (t ++ u) = lstrip t ++ u := by
  apply lstrip_append
  rw [Ne, strip_eq_nil, Bool.not_eq_true] at h
  exact h

def StartsInk (t : Text) : Prop := '\n' ∉ t.takeWhile isSpace

theorem lineEnds_of_startsInk (h : StartsInk t) : lineEnds t = [] := by
  induction t with
  | nil => rfl
  | cons c t ih =>
    unfold StartsInk at h
    by_cases hc : isSpace c = true
    · rw [List.takeWhile_cons_of_pos hc, List.mem_cons, not_or] at h
      rw [lineEnds, if_neg (fun hn => h.1 hn.symm), if_pos hc]
      exact ih h.2
    · have hn : c ≠ '\n' := by
        intro hn
        rw [hn] at hc
        exact hc rfl
      rw [lineEnds, if_neg hn, if_neg hc]

theorem lineEnds_newline (h : StartsInk t) : lineEnds ('\n' :: t) = [t] := by
  rw [lineEnds, if_pos rfl, lineEnds_of_startsInk h]
  rfl

theorem lineEnds_blank (hu : isBlank u = true) (hn : '\n' ∉ u) : lineEnds (u ++ t) = lineEnds t := by
  induction u with
  | nil => rfl
  | cons c u ih =>
    rw [isBlank_cons, Bool.and_eq_true] at hu
    rw [List.mem_cons, not_or] at hn
    rw [List.cons_append, lineEnds, if_neg (fun hc => hn.1 hc.symm), if_pos hu.1]
    exact ih hu.2 hn.2

theorem lineEnds_blank_lines (hblank : ∀ ln ∈ ls, strip ln = []) (hn : ∀ ln ∈ ls, '\n' ∉ ln) :
    ∃ more, lineEnds ('\n' :: (unlines ls ++ t)) = lineEnds ('\n' :: t) ++ more := by
  induction ls with
  | nil => exact ⟨[], by rw [unlines_nil, List.nil_append, List.append_nil]⟩
  | cons ln ls ih =>
    rw [List.forall_mem_cons] at hblank hn
    obtain ⟨more, hmore⟩ := ih hblank.2 hn.2
    refine ⟨more ++ [unlines (ln :: ls) ++ t], ?_⟩
    rw [lineEnds, if_pos rfl]
    conv_lhs => rw [unlines_cons, List.append_assoc, List.cons_append, lineEnds_blank (strip_eq_nil.mp hblank.1) hn.1,
      hmore, List.append_assoc]
    rw [unlines_cons, List.append_assoc, List.cons_append]

theorem suffix_of_mem_lineEnds (h : u ∈ lineEnds t) : '\n' :: u <:+ t := by
  induction t with
  | nil => cases h
  | cons c t ih =>
    rw [lineEnds] at h
    split at h
    · rename_i hc
      rw [List.mem_append, List.mem_singleton] at h
      cases h with
      | inl h => exact (ih h).trans (List.suffix_cons c t)
      | inr h => rw [h, hc]
    · split at h
      · exact (ih h).trans (List.suffix_cons c t)
      · cases h

theorem startsInk_ink_line (h : strip t ≠ []) (hn : '\n' ∉ t) (u : Text) : StartsInk (t ++ u) := by
  have hall : ¬ ∀ c ∈ t, isSpace c = true := by
    rw [Ne, strip_eq_nil, isBlank_iff] at h
    exact h
  unfold StartsInk
  rw [List.takeWhile_append]
  split
  · rename_i hlength
    refine absurd ?_ hall
    have hhere := (List.takeWhile_prefix (l := t) isSpace).eq_of_length hlength
    intro c hc
    rw [← hhere] at hc
    exact List.mem_takeWhile_imp hc
  · exact fun hc => hn ((List.takeWhile_prefix isSpace).subset hc)

variable {α : Type} {m : Matcher α} {a : α}

theorem upTo_append (hearly : ∀ v, v ≠ [] → v <:+ t → m (v ++ u) = none) (h : m u = some (a, x)) :
    upTo m (t ++ u) = some ((t, a), x) := by
  induction t with
  | nil =>
    cases u with
    | nil =>
      rw [List.nil_append, upTo, h]
      rfl
    | cons c u =>
      rw [List.nil_append, upTo, h]
  | cons c t ih =>
    have hnone := hearly (c :: t) (List.cons_ne_nil c t) (List.suffix_refl _)
    rw [List.cons_append] at hnone
    rw [List.cons_append, upTo, hnone, ih fun v hv hs => hearly v hv (hs.trans (List.suffix_cons c t))]
    rfl

theorem upTo_eq_none (h : ∀ v, v <:+ t → m v = none) : upTo m t = none := by
  induction t with
  | nil =>
    rw [upTo, h [] (List.suffix_refl _)]
    rfl
  | cons c t ih =>
    rw [upTo, h _ (List.suffix_refl _), ih fun v hs => h v (hs.trans (List.suffix_cons c t))]
    rfl

theorem upTo_spec (h : upTo m t = some ((y, a), x)) : ∃ v, t = y ++ v ∧ m v = some (a, x) := by
  induction t generalizing y with
  | nil =>
    rw [upTo, Option.map_eq_some_iff] at h
    obtain ⟨p, hp, heq⟩ := h
    simp only [Prod.mk.injEq] at heq
    refine ⟨[], by rw [← heq.1.1]; rfl, ?_⟩
    rw [hp, ← heq.1.2, ← heq.2]
  | cons c t ih =>
    rw [upTo] at h
    split at h
    · rename_i hm
      simp only [Option.some.injEq, Prod.mk.injEq] at h
      exact ⟨c :: t, by rw [← h.1.1]; rfl, by rw [hm, h.1.2, h.2]⟩
    · rw [Option.map_eq_some_iff] at h
      obtain ⟨p, hp, heq⟩ := h
      simp only [Prod.mk.injEq] at heq
      obtain ⟨v, hv, hmv⟩ := ih (y := p.1.1) (by rw [hp, ← heq.1.2, ← heq.2])
      exact ⟨v, by rw [← heq.1.1, hv]; rfl, hmv⟩

theorem upTo_of_match (h : (m u).isSome = true) : ∃ y b x', upTo m (t ++ u) = some ((y, b), x') ∧ y.length ≤ t.length := by
  induction t with
  | nil =>
    obtain ⟨p, hp⟩ := Option.isSome_iff_exists.mp h
    cases u with
    | nil => exact ⟨[], p.1, p.2, by rw [List.nil_append, upTo, hp]; rfl, le_rfl⟩
    | cons c u => exact ⟨[], p.1, p.2, by rw [List.nil_append, upTo, hp], le_rfl⟩
  | cons c t ih =>
    obtain ⟨y, b, x', hy, hlength⟩ := ih
    rw [List.cons_append, upTo]
    cases hm : m (c :: (t ++ u)) with
    | some p => exact ⟨[], p.1, p.2, rfl, Nat.zero_le _⟩
    | none => exact ⟨c :: y, b, x', by rw [hy]; rfl, by rw [List.length_cons, List.length_cons]; omega⟩

theorem suffix_join (hn : ∀ ln ∈ ls, '\n' ∉ ln) (h : '\n' :: u <:+ join ['\n'] ls) :
    ∃ before after, ls = before ++ after ∧ before ≠ [] ∧ after ≠ [] ∧ u = join ['\n'] after := by
  induction ls with
  | nil =>
    rw [join, List.suffix_nil] at h
    cases h
  | cons ln ls ih =>
    rw [List.forall_mem_cons] at hn
    cases ls with
    | nil => exact absurd (h.subset List.mem_cons_self) hn.1
    | cons k ls =>
      have hjoin : join ['\n'] (ln :: k :: ls) = ln ++ '\n' :: join ['\n'] (k :: ls) := by simp [join]
      rw [hjoin] at h
      obtain ⟨front, hfront⟩ := h
      rw [List.append_eq_append_iff] at hfront
      cases hfront with
      | inl hcase =>
        obtain ⟨mid, hln, hrest⟩ := hcase
        cases mid with
        | nil =>
          refine ⟨[ln], k :: ls, rfl, List.cons_ne_nil _ _, List.cons_ne_nil _ _, ?_⟩
          exact (List.cons.inj hrest).2
        | cons c mid =>
          have hc := (List.cons.inj hrest).1
          refine absurd ?_ hn.1
          rw [hln, ← hc]
          simp
      | inr hcase =>
        obtain ⟨mid, hfront, hrest⟩ := hcase
        cases mid with
        | nil =>
          refine ⟨[ln], k :: ls, rfl, List.cons_ne_nil _ _, List.cons_ne_nil _ _, ?_⟩
          exact (List.cons.inj hrest).2.symm
        | cons c mid =>
          obtain ⟨before, after, hsplit, hbefore, hafter, hu⟩ := ih hn.2 ⟨mid, (List.cons.inj hrest).2.symm⟩
          refine ⟨ln :: before, after, ?_, List.cons_ne_nil _ _, hafter, hu⟩
          rw [hsplit]
          rfl

theorem length_splitOn (t : Text) : (t.splitOn '\n').length = t.count '\n' + 1 := by
  induction t with
  | nil => rfl
  | cons c t ih =>
    rw [List.splitOn_cons_eq_if_modifyHead]
    by_cases hc : c = '\n'
    · rw [if_pos (by simp [hc]), List.length_cons, ih, hc, List.count_cons_self]
    · rw [if_neg (by simp [hc]), List.length_modifyHead, ih, List.count_cons_of_ne hc]

theorem trimLines_spec (ls : List Text) : ∃ pre post, ls = pre ++ (trimLines ls ++ post) ∧
    (∀ ln ∈ pre, strip ln = []) ∧ (∀ ln ∈ post, strip ln = []) ∧
    (∀ ln ∈ (trimLines ls).head?, strip ln ≠ []) ∧ ∀ ln ∈ (trimLines ls).getLast?, strip ln ≠ [] := by
  have hblank : ∀ (ks : List Text), ∀ ln ∈ ks.takeWhile (fun ln => decide (strip ln = [])), strip ln = [] := by
    intro ks ln hln
    simpa using List.mem_takeWhile_imp hln
  have hsecond := List.takeWhile_append_dropWhile (p := fun ln : Text => decide (strip ln = []))
    (l := (ls.dropWhile fun ln => strip ln = []).reverse)
  have hmiddle : ls.dropWhile (fun ln => strip ln = []) =
      trimLines ls ++ (((ls.dropWhile fun ln => strip ln = []).reverse).takeWhile fun ln => strip ln = []).reverse := by
    have hreverse := congrArg List.reverse hsecond
    rw [List.reverse_append, List.reverse_reverse] at hreverse
    exact hreverse.symm
  refine ⟨ls.takeWhile fun ln => strip ln = [],
    (((ls.dropWhile fun ln => strip ln = []).reverse).takeWhile fun ln => strip ln = []).reverse, ?_, ?_, ?_, ?_, ?_⟩
  · rw [← hmiddle, List.takeWhile_append_dropWhile]
  · exact hblank ls
  · intro ln hln
    exact hblank _ ln (List.mem_reverse.mp hln)
  · intro ln hln
    have hhead : (ls.dropWhile fun ln => strip ln = []).head? = some ln := by
      rw [hmiddle]
      rw [Option.mem_def] at hln
      rw [List.head?_append, hln]
      rfl
    have hdrop := List.head?_dropWhile_not (fun ln : Text => decide (strip ln = [])) ls
    rw [hhead] at hdrop
    simpa using hdrop
  · intro ln hln
    unfold trimLines at hln
    rw [List.getLast?_reverse, Option.mem_def] at hln
    have hdrop := List.head?_dropWhile_not (fun ln : Text => decide (strip ln = []))
      (ls.dropWhile fun ln => strip ln = []).reverse
    rw [hln] at hdrop
    simpa using hdrop

theorem trimLines_of_blank (h : ∀ ln ∈ ls, strip ln = []) : trimLines ls = [] := by
  have hdrop : ls.dropWhile (fun ln => strip ln = []) = [] := by
    rw [List.dropWhile_eq_nil_iff]
    intro ln hln
    simpa using h ln hln
  rw [trimLines, hdrop]
  rfl

theorem trimLines_of_ink (hhead : ∀ ln ∈ ls.head?, strip ln ≠ []) (hlast : ∀ ln ∈ ls.getLast?, strip ln ≠ []) :
    trimLines ls = ls := by
  have hdrop : ∀ {ks : List Text}, (∀ ln ∈ ks.head?, strip ln ≠ []) → ks.dropWhile (fun ln => strip ln = []) = ks := by
    intro ks hks
    cases ks with
    | nil => rfl
    | cons k ks => rw [List.dropWhile_cons_of_neg (by simpa using hks k rfl)]
  have hback : ∀ ln ∈ ls.reverse.head?, strip ln ≠ [] := by
    rw [List.head?_reverse]
    exact hlast
  rw [trimLines, hdrop hhead, hdrop hback, List.reverse_reverse]

theorem length_trimLines_le (ls : List Text) : (trimLines ls).length ≤ ls.length := by
  unfold trimLines
  rw [List.length_reverse]
  calc
    _ ≤ _ := (List.dropWhile_suffix _).length_le
    _ = _ := List.length_reverse
    _ ≤ _ := (List.dropWhile_suffix _).length_le

theorem onNewLine_eq (mark t : Text) :
    onNewLine mark ('\n' :: t) = if mark <+: lstrip t then some ((lstrip t).drop mark.length) else none := by
  unfold lstrip
  rw [onNewLine]
  by_cases h : mark <+: t.dropWhile isSpace
  · rw [if_pos (List.isPrefixOf_iff_prefix.mpr h), if_pos h]
  · rw [if_neg (fun hp => h (List.isPrefixOf_iff_prefix.mp hp)), if_neg h]

theorem onNewLine_of_ne {c : Char} (hc : c ≠ '\n') (mark t : Text) : onNewLine mark (c :: t) = none := by
  unfold onNewLine
  split
  · rename_i heq
    exact absurd (List.cons.inj heq).1 hc
  · rfl

theorem closingAt_isSome : (closingAt ('\n' :: t)).isSome = true ↔
    ">>>>>>>".toList <+: lstrip t ∧ "UPDATED".toList <+: lstrip ((lstrip t).drop 7) := by
  unfold closingAt
  rw [onNewLine_eq]
  by_cases h : ">>>>>>>".toList <+: lstrip t
  · have hlength : ">>>>>>>".toList.length = 7 := rfl
    rw [if_pos h, Option.bind_some, hlength]
    by_cases h' : "UPDATED".toList <+: lstrip ((lstrip t).drop 7)
    · have htrue : "UPDATED".toList.isPrefixOf (((lstrip t).drop 7).dropWhile isSpace) = true :=
        List.isPrefixOf_iff_prefix.mpr h'
      rw [if_pos htrue]
      exact ⟨fun _ => ⟨h, h'⟩, fun _ => rfl⟩
    · have hfalse : ¬ "UPDATED".toList.isPrefixOf (((lstrip t).drop 7).dropWhile isSpace) = true :=
        fun hp => h' (List.isPrefixOf_iff_prefix.mp hp)
      rw [if_neg hfalse]
      exact ⟨fun hnone => (by cases hnone), fun hboth => absurd hboth.2 h'⟩
  · rw [if_neg h]
    exact ⟨fun hnone => (by cases hnone), fun hboth => absurd hboth.1 h⟩

theorem closingAt_of_ne {c : Char} (hc : c ≠ '\n') (t : Text) : closingAt (c :: t) = none := by
  unfold closingAt
  rw [onNewLine_of_ne hc]
  rfl

theorem closingAt_line (hink : isBlank u = false) (hz : "UPDATED".toList <+: lstrip z → False) :
    (closingAt ('\n' :: (u ++ '\n' :: z))).isSome = true ↔
      ">>>>>>>".toList <+: lstrip u ∧ "UPDATED".toList <+: lstrip ((lstrip u).drop 7) := by
  rw [closingAt_isSome, lstrip_append hink, prefix_line (by decide)]
  apply and_congr_right
  intro hmark
  have hlong : 7 ≤ (lstrip u).length := hmark.length_le
  rw [List.drop_append_of_le_length hlong]
  by_cases hblank : isBlank ((lstrip u).drop 7) = true
  · rw [lstrip_append_of_blank hblank, lstrip_of_blank hblank, lstrip_cons_of_space (by decide)]
    constructor
    · intro h
      exact (hz h).elim
    · intro h
      exact absurd (List.prefix_nil.mp h) (by decide)
  · rw [Bool.not_eq_true] at hblank
    rw [lstrip_append hblank]
    exact prefix_line (by decide)

theorem not_prefix_closing (z : Text) : "UPDATED".toList <+: lstrip ('>' :: z) → False := by
  intro h
  rw [lstrip_cons_of_ink (by decide)] at h
  exact absurd (List.cons_prefix_cons.mp h).1 (by decide)

theorem not_prefix_nil : "UPDATED".toList <+: lstrip [] → False := by
  intro h
  exact absurd (List.prefix_nil.mp h) (by decide)

/-- Lines with ink read as the closing marker whatever real marker stands behind them. -/
theorem closingAt_append (hink : isBlank u = false) (z : Text) :
    (closingAt ('\n' :: (u ++ '\n' :: '>' :: z))).isSome = (closingAt ('\n' :: (u ++ ['\n']))).isSome := by
  apply Bool.eq_iff_iff.mpr
  rw [closingAt_line hink (not_prefix_closing z), closingAt_line hink not_prefix_nil]

theorem closingAt_marker (hblank : ∀ ln ∈ ls, strip ln = []) (z : Text) :
    closingAt ('\n' :: (unlines ls ++ (closingLine ++ '\n' :: z))) = some ((), lstrip z) := by
  have hstrip : lstrip (unlines ls ++ (closingLine ++ '\n' :: z)) = closingLine ++ '\n' :: z := by
    rw [lstrip_append_of_blank (isBlank_of_blank_lines hblank)]
    rfl
  unfold closingAt
  rw [onNewLine_eq, hstrip]
  rfl

theorem isBlank_unlines_of_ink {ln : Text} (hln : ln ∈ ls) (h : strip ln ≠ []) : isBlank (join ['\n'] ls) = false := by
  rw [← Bool.not_eq_true, isBlank_iff]
  intro hall
  apply h
  rw [strip_eq_nil, isBlank_iff]
  intro c hc
  apply hall
  have hsub : ∀ {ks : List Text}, ln ∈ ks → c ∈ join ['\n'] ks := by
    intro ks hks
    induction ks with
    | nil => cases hks
    | cons k ks ih =>
      cases ks with
      | nil =>
        rw [List.mem_singleton] at hks
        rw [join, ← hks]
        exact hc
      | cons l ks =>
        rw [join, List.append_assoc, List.mem_append, List.mem_append]
        cases List.mem_cons.mp hks with
        | inl hk => exact Or.inl (hk ▸ hc)
        | inr hk => exact Or.inr (Or.inr (ih hk))
  exact hsub hln

theorem closingAt_lines {ln : Text} (hln : ln ∈ ls) (h : strip ln ≠ []) (z : Text) :
    (closingAt ('\n' :: (unlines ls ++ (closingLine ++ '\n' :: z)))).isSome = readsAsClosing ls := by
  have hne : ls ≠ [] := List.ne_nil_of_mem hln
  unfold readsAsClosing
  rw [unlines_eq_join hne, List.append_assoc]
  exact closingAt_append (isBlank_unlines_of_ink hln h) _

/-- The lines of a side that has ink: blank ones, those that are kept, and blank ones. -/
structure Trimmed (ls pre mid post : List Text) : Prop where
  eq : ls = pre ++ (mid ++ post)
  trim : trimLines ls = mid
  pre_blank : ∀ ln ∈ pre, strip ln = []
  post_blank : ∀ ln ∈ post, strip ln = []
  head_ink : ∀ ln ∈ mid.head?, strip ln ≠ []
  last_ink : ∀ ln ∈ mid.getLast?, strip ln ≠ []
  ne_nil : mid ≠ []
  oneLine : ∀ ln ∈ ls, '\n' ∉ ln

theorem exists_trimmed (hn : ∀ ln ∈ ls, '\n' ∉ ln) (h : ∃ ln ∈ ls, strip ln ≠ []) :
    ∃ pre mid post, Trimmed ls pre mid post := by
  obtain ⟨pre, post, heq, hpre, hpost, hhead, hlast⟩ := trimLines_spec ls
  refine ⟨pre, trimLines ls, post, heq, rfl, hpre, hpost, hhead, hlast, ?_, hn⟩
  intro hnil
  obtain ⟨ln, hln, hink⟩ := h
  rw [heq, hnil, List.nil_append, List.mem_append] at hln
  cases hln with
  | inl hln => exact hink (hpre ln hln)
  | inr hln => exact hink (hpost ln hln)

variable {pre mid post : List Text}

theorem Trimmed.oneLine_mid (h : Trimmed ls pre mid post) : ∀ ln ∈ mid, '\n' ∉ ln := by
  intro ln hln
  apply h.oneLine
  rw [h.eq]
  exact List.mem_append_right _ (List.mem_append_left _ hln)

/-- The text of a side: what is kept starts behind the last line end of the white space. -/
theorem Trimmed.lineEnds (h : Trimmed ls pre mid post) (z : Text) :
    ∃ more, Core.lineEnds ('\n' :: (unlines ls ++ z)) = (join ['\n'] mid ++ '\n' :: (unlines post ++ z)) :: more := by
  have htext : unlines ls ++ z = unlines pre ++ (join ['\n'] mid ++ '\n' :: (unlines post ++ z)) := by
    rw [h.eq, unlines_append, unlines_append, unlines_eq_join h.ne_nil]
    simp
  have hone : ∀ ln ∈ pre, '\n' ∉ ln := by
    intro ln hln
    apply h.oneLine
    rw [h.eq]
    exact List.mem_append_left _ hln
  have hink : StartsInk (join ['\n'] mid ++ '\n' :: (unlines post ++ z)) := by
    have hmid := h.oneLine_mid
    have hhead := h.head_ink
    cases hcase : mid with
    | nil => exact absurd hcase h.ne_nil
    | cons ln mid' =>
      rw [hcase] at hmid hhead
      have hline := startsInk_ink_line (hhead ln rfl) (hmid ln List.mem_cons_self)
      cases mid' with
      | nil => exact hline _
      | cons k mid' =>
        rw [join, List.append_assoc, List.append_assoc]
        exact hline _
  obtain ⟨more, hmore⟩ := lineEnds_blank_lines (t := join ['\n'] mid ++ '\n' :: (unlines post ++ z)) h.pre_blank hone
  refine ⟨more, ?_⟩
  rw [htext, hmore, lineEnds_newline hink]
  rfl

/-- A line end inside what is kept: lines with ink in front, and lines with ink behind. -/
theorem Trimmed.suffix (h : Trimmed ls pre mid post) (hu : '\n' :: u <:+ join ['\n'] mid) (z : Text) :
    ∃ before after, ls = before ++ after ∧ (∃ ln ∈ before, strip ln ≠ []) ∧ (∃ ln ∈ after, strip ln ≠ []) ∧
      u ++ '\n' :: (unlines post ++ z) = unlines after ++ z := by
  obtain ⟨front, back, hmid, hfront, hback, htext⟩ := suffix_join h.oneLine_mid hu
  refine ⟨pre ++ front, back ++ post, ?_, ?_, ?_, ?_⟩
  · rw [h.eq, hmid]
    simp
  · cases front with
    | nil => exact absurd rfl hfront
    | cons ln front =>
      refine ⟨ln, by simp, h.head_ink ln ?_⟩
      rw [hmid]
      rfl
  · obtain ⟨ln, hln⟩ := List.getLast?_isSome.mpr hback |> Option.isSome_iff_exists.mp
    refine ⟨ln, List.mem_append_left _ (List.mem_of_getLast? hln), h.last_ink ln ?_⟩
    rw [hmid, Option.mem_def, List.getLast?_append, hln]
    rfl
  · rw [htext, unlines_append, unlines_eq_join hback]
    simp

theorem Trimmed.split (h : Trimmed ls pre mid post) {before after : List Text} (heq : ls = before ++ after)
    (hbefore : ∃ ln ∈ before, strip ln ≠ []) (hafter : ∃ ln ∈ after, strip ln ≠ []) :
    ∃ front back, mid = front ++ back ∧ front ≠ [] ∧ back ≠ [] ∧ after = back ++ post := by
  have hsplit := h.eq.symm.trans heq
  rw [List.append_eq_append_iff] at hsplit
  cases hsplit with
  | inr hcase =>
    obtain ⟨mid', hpre, -⟩ := hcase
    obtain ⟨ln, hln, hink⟩ := hbefore
    exact absurd (h.pre_blank ln (by rw [hpre]; exact List.mem_append_left _ hln)) hink
  | inl hcase =>
    obtain ⟨front, hb, hrest⟩ := hcase
    have hfront : front ≠ [] := by
      intro hnil
      obtain ⟨ln, hln, hink⟩ := hbefore
      rw [hb, hnil, List.append_nil] at hln
      exact hink (h.pre_blank ln hln)
    rw [List.append_eq_append_iff] at hrest
    cases hrest with
    | inl hcase =>
      obtain ⟨mid', -, hpost⟩ := hcase
      obtain ⟨ln, hln, hink⟩ := hafter
      exact absurd (h.post_blank ln (by rw [hpost]; exact List.mem_append_right _ hln)) hink
    | inr hcase =>
      obtain ⟨back, hmid, hpost⟩ := hcase
      refine ⟨front, back, hmid, hfront, ?_, hpost⟩
      intro hnil
      rw [hnil, List.nil_append] at hpost
      obtain ⟨ln, hln, hink⟩ := hafter
      rw [hpost] at hln
      exact hink (h.post_blank ln hln)

/-- `\s*\n(.*?)` and the closing, from behind the divider. -/
def capturedUpdated (updated : List Text) (behind : Text) : Option ((Text × Unit) × Text) :=
  (Core.lineEnds ('\n' :: (unlines updated ++ (closingLine ++ '\n' :: behind)))).findSome? (upTo closingAt)

theorem captured_of_proper (h : Trimmed ls pre mid post) (hproper : ¬ ClosesEarly ls) (z : Text) :
    capturedUpdated ls z = some ((join ['\n'] mid, ()), lstrip z) := by
  obtain ⟨more, hmore⟩ := h.lineEnds (closingLine ++ '\n' :: z)
  have hup : upTo closingAt (join ['\n'] mid ++ '\n' :: (unlines post ++ (closingLine ++ '\n' :: z))) =
      some ((join ['\n'] mid, ()), lstrip z) := by
    apply upTo_append _ (closingAt_marker h.post_blank z)
    intro v hv hsuffix
    cases v with
    | nil => exact absurd rfl hv
    | cons c v =>
      by_cases hc : c = '\n'
      · rw [hc] at hsuffix ⊢
        obtain ⟨before, after, hsplit, hbefore, hafter, htext⟩ := h.suffix hsuffix (closingLine ++ '\n' :: z)
        rw [List.cons_append, htext]
        obtain ⟨ln, hln, hink⟩ := hafter
        have hreads : readsAsClosing after = false := by
          by_contra hreads
          rw [Bool.not_eq_false] at hreads
          exact hproper ⟨before, after, hsplit, hbefore, ⟨ln, hln, hink⟩, hreads⟩
        rw [← closingAt_lines hln hink z] at hreads
        simpa using hreads
      · exact closingAt_of_ne hc _
  unfold capturedUpdated
  rw [hmore, List.findSome?_cons, hup]

theorem captured_of_early (h : Trimmed ls pre mid post) (hearly : ClosesEarly ls) (z : Text) :
    ∃ y rest, capturedUpdated ls z = some ((y, ()), rest) ∧ (y.splitOn '\n').length < mid.length := by
  obtain ⟨more, hmore⟩ := h.lineEnds (closingLine ++ '\n' :: z)
  obtain ⟨before, after, hsplit, hbefore, hafter, hreads⟩ := hearly
  obtain ⟨front, back, hmid, hfront, hback, hpost⟩ := h.split hsplit hbefore hafter
  have htext : join ['\n'] mid ++ '\n' :: (unlines post ++ (closingLine ++ '\n' :: z)) =
      join ['\n'] front ++ '\n' :: (unlines after ++ (closingLine ++ '\n' :: z)) := by
    rw [hmid, join_append_lines hfront hback, hpost, unlines_append, unlines_eq_join hback]
    simp
  obtain ⟨ln, hln, hink⟩ := hafter
  have hmatch : (closingAt ('\n' :: (unlines after ++ (closingLine ++ '\n' :: z)))).isSome = true := by
    rw [closingAt_lines hln hink, hreads]
  obtain ⟨y, b, rest, hup, hlength⟩ := upTo_of_match (t := join ['\n'] front) hmatch
  refine ⟨y, rest, ?_, ?_⟩
  · unfold capturedUpdated
    rw [hmore, List.findSome?_cons, htext, hup]
  · obtain ⟨v, hv, -⟩ := upTo_spec hup
    have hwhole : y <+: join ['\n'] front ++ '\n' :: (unlines after ++ (closingLine ++ '\n' :: z)) := by
      rw [hv]
      exact List.prefix_append _ _
    have hhere := List.prefix_of_prefix_length_le hwhole (List.prefix_append _ _) hlength
    have hone : ∀ l ∈ front, '\n' ∉ l := by
      intro l hl
      apply h.oneLine_mid
      rw [hmid]
      exact List.mem_append_left _ hl
    have hlines := splitOn_join hfront hone
    have hcount := hhere.sublist.count_le '\n'
    have hy := length_splitOn y
    have hf := length_splitOn (join ['\n'] front)
    rw [hlines] at hf
    have hpos := List.length_pos_iff.mpr hback
    rw [hmid, List.length_append]
    omega

theorem startsInk_of_head {c : Char} (hc : isSpace c = false) (t : Text) : StartsInk (c :: t) := by
  unfold StartsInk
  rw [List.takeWhile_cons_of_neg (by simp [hc])]
  exact List.not_mem_nil

theorem closing_tails : ∀ v ∈ (closingLine ++ ['\n']).tails, (closingAt v).isNone = true := by decide

theorem upTo_closingLine : upTo closingAt (closingLine ++ ['\n']) = none := by
  apply upTo_eq_none
  intro v hv
  rw [← Option.isNone_iff_eq_none]
  exact closing_tails v ((List.mem_tails _ _).mpr hv)

theorem captured_of_blank {last : Text} (hblank : ∀ ln ∈ ls ++ [last], strip ln = [])
    (hn : ∀ ln ∈ ls ++ [last], '\n' ∉ ln) : capturedUpdated (ls ++ [last]) [] = some ((last, ()), []) := by
  have hlast := strip_eq_nil.mp (hblank last (by simp))
  have hone := hn last (by simp)
  have hink : StartsInk (closingLine ++ ['\n']) := startsInk_of_head (by decide) _
  have htext : unlines (ls ++ [last]) ++ (closingLine ++ ['\n']) =
      unlines ls ++ (last ++ '\n' :: (closingLine ++ ['\n'])) := by
    rw [unlines_append, unlines_cons, unlines_nil]
    simp
  have hfront : ∀ ln ∈ ls, strip ln = [] := fun ln hln => hblank ln (List.mem_append_left _ hln)
  have hlines : ∀ ln ∈ ls, '\n' ∉ ln := fun ln hln => hn ln (List.mem_append_left _ hln)
  obtain ⟨more, hmore⟩ := lineEnds_blank_lines (t := last ++ '\n' :: (closingLine ++ ['\n'])) hfront hlines
  have htwo : lineEnds ('\n' :: (last ++ '\n' :: (closingLine ++ ['\n']))) =
      [closingLine ++ ['\n'], last ++ '\n' :: (closingLine ++ ['\n'])] := by
    rw [lineEnds, if_pos rfl, lineEnds_blank hlast hone, lineEnds_newline hink]
    rfl
  have hup : upTo closingAt (last ++ '\n' :: (closingLine ++ ['\n'])) = some ((last, ()), []) := by
    apply upTo_append _ (closingAt_marker (List.forall_mem_nil _) [])
    intro v hv hsuffix
    cases v with
    | nil => exact absurd rfl hv
    | cons c v =>
      apply closingAt_of_ne
      intro hc
      rw [hc] at hsuffix
      exact hone (hsuffix.subset List.mem_cons_self)
  unfold capturedUpdated
  rw [htext, hmore, htwo, List.findSome?_append, List.findSome?_cons, upTo_closingLine, List.findSome?_cons, hup]
  rfl

/-- Blank lines, or none, with a marker somewhere behind: what is captured starts with this block's own marker. -/
theorem captured_of_behind (hblank : ∀ ln ∈ ls, strip ln = []) (hn : ∀ ln ∈ ls, '\n' ∉ ln) (y z : Text) :
    ∃ v rest, capturedUpdated ls (y ++ '\n' :: (closingLine ++ '\n' :: z)) = some (('>' :: v, ()), rest) := by
  have hink : StartsInk (closingLine ++ '\n' :: (y ++ '\n' :: (closingLine ++ '\n' :: z))) :=
    startsInk_of_head (by decide) _
  obtain ⟨more, hmore⟩ := lineEnds_blank_lines
    (t := closingLine ++ '\n' :: (y ++ '\n' :: (closingLine ++ '\n' :: z))) hblank hn
  have hmatch : (closingAt ('\n' :: (closingLine ++ '\n' :: z))).isSome = true := by
    have hmarker := closingAt_marker (List.forall_mem_nil _) z
    rw [unlines_nil, List.nil_append] at hmarker
    rw [hmarker]
    rfl
  obtain ⟨v, b, rest, hup, -⟩ := upTo_of_match (t := closingLine ++ '\n' :: y) hmatch
  have htext : closingLine ++ '\n' :: y ++ '\n' :: (closingLine ++ '\n' :: z) =
      closingLine ++ '\n' :: (y ++ '\n' :: (closingLine ++ '\n' :: z)) := by simp
  rw [htext] at hup
  obtain ⟨q, hq, hmatch'⟩ := upTo_spec hup
  -- No closing starts at the marker itself, so at least its first character is captured.
  cases v with
  | nil =>
    rw [List.nil_append] at hq
    have hnone := closingAt_of_ne (by decide : ('>' : Char) ≠ '\n')
      (closingLine.tail ++ '\n' :: (y ++ '\n' :: (closingLine ++ '\n' :: z)))
    have hhead : q = '>' :: (closingLine.tail ++ '\n' :: (y ++ '\n' :: (closingLine ++ '\n' :: z))) := by
      rw [← hq]
      rfl
    rw [hhead, hnone] at hmatch'
    cases hmatch'
  | cons c v =>
    have hc : c = '>' := by
      have hhead := congrArg List.head? hq
      rw [List.cons_append, List.head?_cons] at hhead
      exact (Option.some.inj hhead).symm
    refine ⟨v, rest, ?_⟩
    unfold capturedUpdated
    rw [hmore, lineEnds_newline hink, List.singleton_append, List.findSome?_cons, hup, hc]

theorem captured_nil : capturedUpdated [] [] = none := by
  have hink : StartsInk (closingLine ++ ['\n']) := startsInk_of_head (by decide) _
  unfold capturedUpdated
  rw [unlines_nil, List.nil_append, lineEnds_newline hink, List.findSome?_cons, upTo_closingLine]
  rfl

theorem exists_first_ink (h : ∃ ln ∈ ls, strip ln ≠ []) :
    ∃ blank ln rest, ls = blank ++ ln :: rest ∧ (∀ b ∈ blank, strip b = []) ∧ strip ln ≠ [] := by
  induction ls with
  | nil =>
    obtain ⟨ln, hln, -⟩ := h
    cases hln
  | cons k ls ih =>
    by_cases hk : strip k = []
    · have hrest : ∃ ln ∈ ls, strip ln ≠ [] := by
        obtain ⟨ln, hln, hink⟩ := h
        cases List.mem_cons.mp hln with
        | inl hln =>
          rw [hln] at hink
          exact absurd hk hink
        | inr hln => exact ⟨ln, hln, hink⟩
      obtain ⟨blank, ln, rest, heq, hblank, hink⟩ := ih hrest
      exact ⟨k :: blank, ln, rest, by rw [heq]; rfl, List.forall_mem_cons.mpr ⟨hk, hblank⟩, hink⟩
    · exact ⟨[], k, ls, rfl, by simp, hk⟩

theorem dividerAt_lines (hink : ∃ ln ∈ ls, strip ln ≠ []) (hn : ∀ ln ∈ ls, '\n' ∉ ln)
    (hmarker : ∀ ln ∈ ls, isAnswerMarker ln = false) (z : Text) : dividerAt ('\n' :: (unlines ls ++ z)) = none := by
  obtain ⟨blank, ln, rest, heq, hblank, hln⟩ := exists_first_ink hink
  have hmem : ln ∈ ls := by
    rw [heq]
    simp
  have htext : unlines ls ++ z = unlines blank ++ (ln ++ '\n' :: (unlines rest ++ z)) := by
    rw [heq, unlines_append, unlines_cons]
    simp
  unfold dividerAt
  rw [htext, onNewLine_eq, lstrip_append_of_blank (isBlank_of_blank_lines hblank), lstrip_ink_line hln]
  by_cases h : "=======".toList <+: lstrip ln ++ '\n' :: (unlines rest ++ z)
  · obtain ⟨k, hk⟩ := (prefix_line (by decide)).mp h
    have hink : strip k ≠ [] := by
      intro hnil
      have hdivider : strip ln = dividerLine := by
        rw [strip, ← hk, rstrip_append_blank (strip_eq_nil.mp hnil)]
        rfl
      have hunmarked := hmarker ln hmem
      rw [isAnswerMarker, hdivider] at hunmarked
      revert hunmarked
      decide
    have hone : '\n' ∉ k := by
      intro hnk
      apply hn ln hmem
      apply (List.dropWhile_suffix isSpace).subset
      have hlstrip : '\n' ∈ lstrip ln := by
        rw [← hk]
        exact List.mem_append_right _ hnk
      exact hlstrip
    have hdrop : (lstrip ln ++ '\n' :: (unlines rest ++ z)).drop "=======".toList.length =
        k ++ '\n' :: (unlines rest ++ z) := by
      rw [← hk, List.append_assoc, List.drop_left]
    rw [if_pos h, Option.bind_some, hdrop, lineEnds_of_startsInk (startsInk_ink_line hink hone _)]
    rfl
  · rw [if_neg h]
    rfl

theorem dividerAt_divider (hblank : ∀ ln ∈ ls, strip ln = []) (z : Text) :
    dividerAt ('\n' :: (unlines ls ++ (dividerLine ++ '\n' :: z))) =
      ((lineEnds ('\n' :: z)).findSome? (upTo closingAt)).map fun p => (p.1.1, p.2) := by
  have hstrip : lstrip (unlines ls ++ (dividerLine ++ '\n' :: z)) = dividerLine ++ '\n' :: z := by
    rw [lstrip_append_of_blank (isBlank_of_blank_lines hblank)]
    rfl
  unfold dividerAt
  rw [onNewLine_eq, hstrip]
  rfl

theorem written_append (b : Block) (z : Text) : b.written ++ z =
    openingLine ++ '\n' :: (unlines b.original ++ (dividerLine ++ '\n' :: (unlines b.updated ++ (closingLine ++ '\n' :: z)))) := by
  simp [Block.written, unlines_cons, unlines_append]

theorem patchBlockAt_opening (z : Text) :
    patchBlockAt (openingLine ++ '\n' :: z) = (lineEnds ('\n' :: z)).findSome? (upTo dividerAt) := rfl

theorem Block.oneLine_original (b : Block) : ∀ ln ∈ b.original, '\n' ∉ ln :=
  fun ln hln => b.oneLine ln (List.mem_append_left _ hln)

theorem Block.oneLine_updated (b : Block) : ∀ ln ∈ b.updated, '\n' ∉ ln :=
  fun ln hln => b.oneLine ln (List.mem_append_right _ hln)

/-- A block read from its own opening: the ORIGINAL side without the blank lines around it, and what is captured of
the UPDATED side. -/
theorem patchBlockAt_written (b : Block) {y rest : Text} (h : capturedUpdated b.updated z = some ((y, ()), rest)) :
    patchBlockAt (b.written ++ z) = some ((join ['\n'] (trimLines b.original), y), rest) := by
  obtain ⟨pre, mid, post, htrim⟩ := exists_trimmed b.oneLine_original b.quotes
  obtain ⟨more, hmore⟩ := htrim.lineEnds (dividerLine ++ '\n' :: (unlines b.updated ++ (closingLine ++ '\n' :: z)))
  have hup : upTo dividerAt (join ['\n'] mid ++ '\n' :: (unlines post ++
      (dividerLine ++ '\n' :: (unlines b.updated ++ (closingLine ++ '\n' :: z))))) =
      some ((join ['\n'] mid, y), rest) := by
    apply upTo_append
    · intro v hv hsuffix
      cases v with
      | nil => exact absurd rfl hv
      | cons c v =>
        by_cases hc : c = '\n'
        · rw [hc] at hsuffix ⊢
          obtain ⟨before, after, hsplit, -, hafter, htext⟩ := htrim.suffix hsuffix
            (dividerLine ++ '\n' :: (unlines b.updated ++ (closingLine ++ '\n' :: z)))
          have hmem : ∀ ln ∈ after, ln ∈ b.original := by
            intro ln hln
            rw [hsplit]
            exact List.mem_append_right _ hln
          rw [List.cons_append, htext]
          exact dividerAt_lines hafter (fun ln hln => b.oneLine_original ln (hmem ln hln))
            (fun ln hln => b.unmarked ln (List.mem_append_left _ (hmem ln hln))) _
        · rw [List.cons_append]
          unfold dividerAt
          rw [onNewLine_of_ne hc]
          rfl
    · rw [dividerAt_divider htrim.post_blank]
      unfold capturedUpdated at h
      rw [h]
      rfl
  rw [written_append, patchBlockAt_opening, hmore, List.findSome?_cons, hup, htrim.trim]

theorem suffix_unlines (hn : ∀ ln ∈ ls, '\n' ∉ ln) (h : '\n' :: u <:+ unlines ls) :
    ∃ before after, ls = before ++ after ∧ before ≠ [] ∧ u = unlines after := by
  induction ls with
  | nil =>
    rw [unlines_nil, List.suffix_nil] at h
    cases h
  | cons ln ls ih =>
    rw [List.forall_mem_cons] at hn
    rw [unlines_cons] at h
    have hline : ∀ v, v <:+ ln → '\n' :: u <:+ v ++ '\n' :: unlines ls → '\n' :: u <:+ '\n' :: unlines ls := by
      intro v hv hsuffix
      induction v with
      | nil => exact hsuffix
      | cons c v ihv =>
        rw [List.cons_append, List.suffix_cons_iff] at hsuffix
        cases hsuffix with
        | inl heq =>
          have hc := (List.cons.inj heq).1
          rw [← hc] at hv
          exact absurd (hv.subset List.mem_cons_self) hn.1
        | inr hsuffix => exact ihv ((List.suffix_cons c v).trans hv) hsuffix
    have hrest := hline ln (List.suffix_refl _) h
    rw [List.suffix_cons_iff] at hrest
    cases hrest with
    | inl heq => exact ⟨[ln], ls, rfl, List.cons_ne_nil _ _, (List.cons.inj heq).2⟩
    | inr hsuffix =>
      obtain ⟨before, after, heq, -, hu⟩ := ih hn.2 hsuffix
      exact ⟨ln :: before, after, by rw [heq]; rfl, List.cons_ne_nil _ _, hu⟩

theorem exists_divider {c : Text × Text} (h : patchBlockAt t = some (c, x)) :
    ∃ v, v <:+ t ∧ (dividerAt v).isSome = true := by
  unfold patchBlockAt at h
  split at h
  · simp only at h
    split at h
    · obtain ⟨u, hu, hup⟩ := List.exists_of_findSome?_eq_some h
      obtain ⟨v, hv, hmatch⟩ := upTo_spec (y := c.1) (a := c.2) (x := x) hup
      refine ⟨v, ?_, by rw [hmatch]; rfl⟩
      have hmem := suffix_of_mem_lineEnds hu
      calc
        v <:+ u := by rw [hv]; exact List.suffix_append _ _
        _ <:+ '\n' :: u := List.suffix_cons _ _
        _ <:+ _ := hmem
        _ <:+ _ := List.drop_suffix _ _
        _ <:+ _ := List.dropWhile_suffix _
        _ <:+ t := List.drop_suffix _ _
    · cases h
  · cases h

theorem not_divider_closing : (dividerAt ('\n' :: unlines [closingLine])).isNone = true := by decide

theorem not_divider_nil : (dividerAt ('\n' :: unlines [])).isNone = true := by decide

/-- No divider is read in a block with nothing between its divider and its closing marker. -/
theorem dividerAt_of_deletion {b : Block} (hnil : b.updated = []) {v : Text} (hv : v <:+ b.written) : dividerAt v = none := by
  cases v with
  | nil => rfl
  | cons c v =>
    by_cases hc : c = '\n'
    · rw [hc] at hv ⊢
      have hone : ∀ ln ∈ openingLine :: (b.original ++ [dividerLine, closingLine]), '\n' ∉ ln := by
        intro ln hln
        simp only [List.mem_cons, List.mem_append, List.not_mem_nil, or_false] at hln
        cases hln with
        | inl h => rw [h]; decide
        | inr h =>
          cases h with
          | inl h => exact b.oneLine_original ln h
          | inr h =>
            cases h with
            | inl h => rw [h]; decide
            | inr h => rw [h]; decide
      have hlines : b.written = unlines (openingLine :: (b.original ++ [dividerLine, closingLine])) := by
        simp [Block.written, hnil]
      rw [hlines] at hv
      obtain ⟨before, after, heq, hbefore, hu⟩ := suffix_unlines hone hv
      rw [hu]
      cases before with
      | nil => exact absurd rfl hbefore
      | cons k before =>
        have hsplit : b.original ++ [dividerLine, closingLine] = before ++ after := (List.cons.inj heq).2
        rw [List.append_eq_append_iff] at hsplit
        cases hsplit with
        | inr hcase =>
          obtain ⟨front, horiginal, hafter⟩ := hcase
          rw [hafter, unlines_append]
          by_cases hink : ∃ ln ∈ front, strip ln ≠ []
          · have hmem : ∀ ln ∈ front, ln ∈ b.original := by
              intro ln hln
              rw [horiginal]
              exact List.mem_append_right _ hln
            exact dividerAt_lines hink (fun ln hln => b.oneLine_original ln (hmem ln hln))
              (fun ln hln => b.unmarked ln (List.mem_append_left _ (hmem ln hln))) _
          · push Not at hink
            have hmarker := dividerAt_divider hink (closingLine ++ ['\n'])
            have hcaptured := captured_nil
            unfold capturedUpdated at hcaptured
            rw [unlines_nil, List.nil_append] at hcaptured
            rw [hcaptured] at hmarker
            simpa [unlines_cons] using hmarker
        | inl hcase =>
          obtain ⟨front, -, hafter⟩ := hcase
          cases front with
          | nil =>
            rw [List.nil_append] at hafter
            have hmarker := dividerAt_divider (List.forall_mem_nil _) (closingLine ++ ['\n'])
            have hcaptured := captured_nil
            unfold capturedUpdated at hcaptured
            rw [unlines_nil, List.nil_append] at hcaptured
            rw [hcaptured] at hmarker
            rw [← hafter]
            simpa [unlines_cons] using hmarker
          | cons d front =>
            have hafter : [closingLine] = front ++ after := (List.cons.inj hafter).2
            cases front with
            | nil =>
              rw [List.nil_append] at hafter
              rw [← hafter, ← Option.isNone_iff_eq_none]
              exact not_divider_closing
            | cons e front =>
              have hafter : [] = front ++ after := (List.cons.inj hafter).2
              have hnone := List.append_eq_nil_iff.mp hafter.symm
              rw [hnone.2, ← Option.isNone_iff_eq_none]
              exact not_divider_nil
    · unfold dividerAt
      rw [onNewLine_of_ne hc]
      rfl

theorem patchBlocks_of_deletion {b : Block} (hnil : b.updated = []) : patchBlocks b.written = [] := by
  apply finditer_eq_nil
  intro s hs
  cases hmatch : patchBlockAt s with
  | none => rfl
  | some p =>
    obtain ⟨v, hv, hdivider⟩ := exists_divider (c := p.1) (x := p.2) hmatch
    rw [dividerAt_of_deletion hnil (hv.trans hs)] at hdivider
    cases hdivider

theorem patchBlocks_cons {c : Char} {found : Text × Text} (h : patchBlockAt (c :: t) = some (found, x)) :
    ∃ more, patchBlocks (c :: t) = found :: more := by
  refine ⟨findFrom patchBlockAt (t.length - x.length) t, ?_⟩
  simp [patchBlocks, finditer, findFrom, h]

theorem patchBlocks_match {c : Char} {found : Text × Text} (h : patchBlockAt (c :: t) = some (found, x)) (hx : x <:+ t) :
    patchBlocks (c :: t) = found :: patchBlocks x := by
  have hdrop := drop_length_sub hx
  unfold patchBlocks
  conv_rhs => rw [← hdrop, ← findFrom_drop]
  simp [finditer, findFrom, h]

theorem patchBlocks_header (hplain : ∀ ln ∈ ls, contains "<<<<<<<".toList ln = false) (z : Text) :
    patchBlocks (unlines ls ++ z) = patchBlocks z := by
  induction ls with
  | nil => rfl
  | cons ln ls ih =>
    rw [List.forall_mem_cons] at hplain
    rw [unlines_cons, List.append_assoc, List.cons_append, ← ih hplain.2]
    have hnone : find ln "<<<<<<<".toList = none := by
      have hcontains := hplain.1
      unfold contains at hcontains
      unfold find
      cases hcut : cut "<<<<<<<".toList ln with
      | none => rfl
      | some p =>
        rw [hcut] at hcontains
        cases hcontains
    have habsent := (find_eq_none_iff (by decide)).mp hnone
    have hline : ∀ k ≤ ln.length, patchBlocks (ln.drop (ln.length - k) ++ '\n' :: (unlines ls ++ z)) =
        patchBlocks (unlines ls ++ z) := by
      intro k
      induction k with
      | zero =>
        intro _
        have hnewline : patchBlockAt ('\n' :: (unlines ls ++ z)) = none := by
          unfold patchBlockAt
          rw [if_neg]
          intro hhere
          have hhead := (List.cons_prefix_cons.mp (List.isPrefixOf_iff_prefix.mp hhere)).1
          exact absurd hhead (by decide)
        rw [Nat.sub_zero, List.drop_length, List.nil_append]
        exact finditer_none hnewline
      | succ k ihk =>
        intro hk
        have hlt : ln.length - (k + 1) < ln.length := by omega
        have hnext : ln.length - (k + 1) + 1 = ln.length - k := by omega
        have hstart : patchBlockAt (ln.drop (ln.length - (k + 1)) ++ '\n' :: (unlines ls ++ z)) = none := by
          unfold patchBlockAt
          rw [if_neg]
          intro hhere
          exact habsent _ ((prefix_line (by decide)).mp (List.isPrefixOf_iff_prefix.mp hhere))
        rw [List.drop_eq_getElem_cons hlt, hnext, List.cons_append] at hstart ⊢
        have hrest := ihk (by omega)
        rw [← hrest]
        exact finditer_none hstart
    have hwhole := hline ln.length le_rfl
    rw [Nat.sub_self, List.drop_zero] at hwhole
    exact hwhole

theorem mem_of_mem_trimLines {ln : Text} (h : ln ∈ trimLines ls) : ln ∈ ls := by
  obtain ⟨pre, post, heq, -⟩ := trimLines_spec ls
  rw [heq]
  exact List.mem_append_right _ (List.mem_append_left _ h)

theorem trimLines_ne_nil (h : ∃ ln ∈ ls, strip ln ≠ []) : trimLines ls ≠ [] := by
  obtain ⟨pre, post, heq, hpre, hpost, -⟩ := trimLines_spec ls
  intro hnil
  obtain ⟨ln, hln, hink⟩ := h
  rw [heq, hnil, List.nil_append, List.mem_append] at hln
  cases hln with
  | inl hln => exact hink (hpre ln hln)
  | inr hln => exact hink (hpost ln hln)

theorem Trimmed.same (h : Trimmed ls pre mid post) : trimLines ((join ['\n'] mid).splitOn '\n') = trimLines ls := by
  rw [splitOn_join h.ne_nil h.oneLine_mid, h.trim, trimLines_of_ink h.head_ink h.last_ink]

theorem same_original (b : Block) : trimLines ((join ['\n'] (trimLines b.original)).splitOn '\n') = trimLines b.original := by
  obtain ⟨pre, mid, post, h⟩ := exists_trimmed b.oneLine_original b.quotes
  have hsame := h.same
  rw [← h.trim] at hsame
  exact hsame

theorem written_cons (b : Block) : ∃ w, b.written = '<' :: w := by
  have h := written_append b []
  rw [List.append_nil] at h
  refine ⟨openingLine.tail ++ '\n' :: (unlines b.original ++ (dividerLine ++ '\n' ::
    (unlines b.updated ++ (closingLine ++ ['\n'])))), ?_⟩
  rw [h]
  rfl

theorem lstrip_blocks (blocks : List Block) : lstrip (blocks.flatMap Block.written) = blocks.flatMap Block.written := by
  cases blocks with
  | nil => rfl
  | cons b blocks =>
    obtain ⟨w, hw⟩ := written_cons b
    rw [List.flatMap_cons, hw, List.cons_append, lstrip_cons_of_ink (by decide)]

theorem patchBlocks_written {b : Block} {y : Text} {behind : Text}
    (h : capturedUpdated b.updated behind = some ((y, ()), lstrip behind)) (hlstrip : lstrip behind = behind) :
    patchBlocks (b.written ++ behind) = (join ['\n'] (trimLines b.original), y) :: patchBlocks behind := by
  have hmatch := patchBlockAt_written b h
  obtain ⟨w, hw⟩ := written_cons b
  rw [hw, List.cons_append, hlstrip] at hmatch
  rw [hw, List.cons_append]
  exact patchBlocks_match hmatch (List.suffix_append _ _)

theorem patchBlocks_head {b : Block} {y rest behind : Text}
    (h : capturedUpdated b.updated behind = some ((y, ()), rest)) :
    ∃ more, patchBlocks (b.written ++ behind) = (join ['\n'] (trimLines b.original), y) :: more := by
  have hmatch := patchBlockAt_written b h
  obtain ⟨w, hw⟩ := written_cons b
  rw [hw, List.cons_append] at hmatch ⊢
  exact patchBlocks_cons hmatch

theorem written_closing (b : Block) : ∃ y, b.written = y ++ '\n' :: (closingLine ++ ['\n']) := by
  refine ⟨join ['\n'] (openingLine :: b.original ++ dividerLine :: b.updated), ?_⟩
  rw [Block.written, unlines_append, unlines_eq_join (by simp)]
  simp [unlines_cons]

theorem parsed_iff (blocks : List Block) :
    List.Forall₂ SameSides (patchBlocks (blocks.flatMap Block.written)) blocks ↔ AllEndProperly blocks := by
  induction blocks with
  | nil =>
    constructor
    · intro _
      trivial
    · intro _
      exact List.Forall₂.nil
  | cons b blocks ih =>
    have hlstrip := lstrip_blocks blocks
    rw [List.flatMap_cons, AllEndProperly, EndsProperly]
    by_cases hblank : ∀ ln ∈ b.updated, strip ln = []
    · rw [if_pos hblank]
      cases blocks with
      | nil =>
        rw [List.flatMap_nil]
        cases hupdated : b.updated.reverse with
        | nil =>
          have hnil := List.reverse_eq_nil_iff.mp hupdated
          rw [List.append_nil, patchBlocks_of_deletion hnil]
          constructor
          · intro h
            cases h
          · intro h
            exact absurd hnil h.1.1
        | cons last lines =>
          have hlines : b.updated = lines.reverse ++ [last] := by
            rw [← List.reverse_cons, ← hupdated, List.reverse_reverse]
          have hone := b.oneLine_updated
          rw [hlines] at hblank hone
          have hcaptured := captured_of_blank hblank hone
          rw [← hlines] at hcaptured
          rw [patchBlocks_written hcaptured rfl]
          constructor
          · intro _
            rw [hlines]
            exact ⟨⟨by simp, rfl⟩, trivial⟩
          · intro _
            refine List.Forall₂.cons ⟨same_original b, ?_⟩ List.Forall₂.nil
            have hsingle : last.splitOn '\n' = [last] := List.splitOn_eq_singleton (hone last (by simp))
            rw [hsingle, hlines, trimLines_of_blank hblank, trimLines_of_blank]
            intro ln hln
            exact hblank ln (List.mem_append_right _ hln)
      | cons b' blocks' =>
        obtain ⟨y, hy⟩ := written_closing b'
        obtain ⟨v, rest, hcaptured⟩ := captured_of_behind hblank b.oneLine_updated y (blocks'.flatMap Block.written)
        have hbehind : (b' :: blocks').flatMap Block.written =
            y ++ '\n' :: (closingLine ++ '\n' :: blocks'.flatMap Block.written) := by
          rw [List.flatMap_cons, hy]
          simp
        rw [hbehind]
        obtain ⟨more, hmore⟩ := patchBlocks_head hcaptured
        rw [hmore]
        constructor
        · intro h
          cases h with
          | cons hsides _ =>
            have hupdated := hsides.2
            rw [trimLines_of_blank hblank] at hupdated
            refine absurd hupdated (trimLines_ne_nil (exists_ink_line ?_))
            exact strip_ne_nil_of_mem (by decide : isSpace '>' = false) List.mem_cons_self
        · intro h
          exact absurd h.1.2 (List.cons_ne_nil _ _)
    · rw [if_neg hblank]
      push Not at hblank
      obtain ⟨pre, mid, post, htrim⟩ := exists_trimmed b.oneLine_updated hblank
      by_cases hearly : ClosesEarly b.updated
      · obtain ⟨y, rest, hcaptured, hshort⟩ := captured_of_early htrim hearly (blocks.flatMap Block.written)
        obtain ⟨more, hmore⟩ := patchBlocks_head hcaptured
        rw [hmore]
        constructor
        · intro h
          cases h with
          | cons hsides _ =>
            have hlength := congrArg List.length hsides.2
            have hle := length_trimLines_le (y.splitOn '\n')
            rw [htrim.trim] at hlength
            simp only at hlength
            omega
        · intro h
          exact absurd hearly h.1
      · have hcaptured := captured_of_proper htrim hearly (blocks.flatMap Block.written)
        rw [patchBlocks_written hcaptured hlstrip, List.forall₂_cons, ih]
        constructor
        · intro h
          exact ⟨hearly, h.2⟩
        · intro h
          exact ⟨⟨same_original b, htrim.same⟩, h.2⟩

theorem strip_reindentLine (delta : ℤ) (ln : Text) : strip (reindentLine delta ln) = strip ln := by
  have hblank : ∀ n, isBlank (List.replicate n ' ') = true := by
    intro n
    rw [isBlank_iff]
    intro c hc
    rw [List.eq_of_mem_replicate hc]
    rfl
  unfold reindentLine
  split
  · rfl
  · split
    · exact strip_blank_append (hblank _)
    · have htake := take_of_le_indentOf (Nat.min_le_right (-delta).toNat (indentOf ln))
      calc
        strip (ln.drop (min (-delta).toNat (indentOf ln)))
          = strip (List.replicate (min (-delta).toNat (indentOf ln)) ' ' ++ ln.drop (min (-delta).toNat (indentOf ln))) :=
            (strip_blank_append (hblank _)).symm
        _ = strip ln := by rw [← htake, List.take_append_drop]

theorem isAnswerMarker_congr {k ln : Text} (h : strip k = strip ln) : isAnswerMarker k = isAnswerMarker ln := by
  unfold isAnswerMarker
  rw [h]

theorem isAnswerMarker_of_blank {ln : Text} (h : strip ln = []) : isAnswerMarker ln = false := by
  unfold isAnswerMarker
  rw [h]
  decide

theorem spliced_unmarked {side : Text} {delta : ℤ} (h : ∀ ln ∈ side.splitOn '\n', isAnswerMarker ln = false) :
    ∀ ln ∈ (reindent (quoted side) delta).splitOn '\n', isAnswerMarker ln = false := by
  intro ln hln
  rw [splitOn_reindent] at hln
  obtain ⟨k, hk, hkl⟩ := List.mem_map.mp hln
  rw [← hkl, isAnswerMarker_congr (strip_reindentLine delta k)]
  rw [quoted, stripMarkerLines_eq] at hk
  by_cases hne : (side.splitOn '\n').filter (!isMarkerLine ·) = []
  · rw [hne, join, List.splitOn_nil, List.mem_singleton] at hk
    rw [hk]
    exact isAnswerMarker_of_blank rfl
  · rw [splitOn_join hne fun l hl => newline_notMem (List.mem_of_mem_filter hl)] at hk
    exact h k (List.mem_of_mem_filter hk)

theorem SameSides.unmarked {found : Text × Text} {b : Block} (h : SameSides found b) :
    ∀ ln ∈ found.2.splitOn '\n', isAnswerMarker ln = false := by
  intro ln hln
  obtain ⟨pre, post, heq, hpre, hpost, -⟩ := trimLines_spec (found.2.splitOn '\n')
  rw [heq, List.mem_append, List.mem_append] at hln
  cases hln with
  | inl hln => exact isAnswerMarker_of_blank (hpre ln hln)
  | inr hln =>
    cases hln with
    | inl hln =>
      rw [h.2] at hln
      exact b.unmarked ln (List.mem_append_right _ (mem_of_mem_trimLines hln))
    | inr hln => exact isAnswerMarker_of_blank (hpost ln hln)

theorem exists_block {found : List (Text × Text)} {blocks : List Block} (h : List.Forall₂ SameSides found blocks) :
    ∀ c ∈ found, ∃ b ∈ blocks, SameSides c b := by
  induction h with
  | nil =>
    intro c hc
    cases hc
  | cons hsides _ ih =>
    rw [List.forall_mem_cons]
    refine ⟨⟨_, List.mem_cons_self, hsides⟩, ?_⟩
    intro c hc
    obtain ⟨b, hb, hcb⟩ := ih c hc
    exact ⟨b, List.mem_cons_of_mem _ hb, hcb⟩

/-- An answer is parsed into the blocks it was written as just when every UPDATED side ends properly. -/
theorem parsed_as_written_iff (a : Answer) : ParsedAsWritten a ↔ AllEndProperly a.blocks := by
  have htext : patchBlocks a.text = patchBlocks (a.blocks.flatMap Block.written) := patchBlocks_header a.unopened _
  unfold ParsedAsWritten
  rw [htext, parsed_iff]
  constructor
  · intro h
    exact h.1
  · intro h
    refine ⟨h, ?_⟩
    intro found hfound text start stop replace hedit
    have hsides := (parsed_iff a.blocks).mpr h
    obtain ⟨-, delta, -, -, -, hreplace⟩ := locate_edit_spec hedit
    rw [hreplace]
    apply spliced_unmarked
    obtain ⟨b, -, hb⟩ := exists_block hsides found hfound
    exact hb.unmarked

theorem oneLine_deletion : ∀ ln ∈ [['a']] ++ ([] : List Text), '\n' ∉ ln := by decide

theorem unmarked_deletion : ∀ ln ∈ [['a']] ++ ([] : List Text), isAnswerMarker ln = false := by decide

theorem quotes_deletion : ∃ ln ∈ [['a']], strip ln ≠ [] := by decide

def deletion : Block where
  original := [['a']]
  updated := []
  oneLine := oneLine_deletion
  unmarked := unmarked_deletion
  quotes := quotes_deletion

theorem oneLine_none : ∀ ln ∈ ([] : List Text), '\n' ∉ ln := by simp

theorem unopened_none : ∀ ln ∈ ([] : List Text), contains "<<<<<<<".toList ln = false := by simp

def deletionAnswer : Answer where
  header := []
  blocks := [deletion]
  oneLine := oneLine_none
  unopened := unopened_none

theorem deletion_not_parsed : patchBlocks deletionAnswer.text = [] ∧ ¬ ParsedAsWritten deletionAnswer := by
  have hnone : patchBlocks deletionAnswer.text = [] := by
    have htext : deletionAnswer.text = deletion.written := by
      simp [Answer.text, deletionAnswer]
    rw [htext]
    exact patchBlocks_of_deletion rfl
  refine ⟨hnone, ?_⟩
  intro h
  have hsides := h.1
  rw [hnone] at hsides
  cases hsides

end EvoHarness.Core
