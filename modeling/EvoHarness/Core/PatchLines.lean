import EvoHarness.Core.PatchFrame

/-! Where a patch block lands: the occurrence the search takes, and the lines it stands on. -/
namespace EvoHarness.Core
open PyText Brackets Weave

def Occurs (text s : Text) (i : ℕ) : Prop := s <+: text.drop i

def FirstAt (text s : Text) (i : ℕ) : Prop := Occurs text s i ∧ ∀ j < i, ¬ Occurs text s j

def LineStart (text : Text) (i : ℕ) : Prop := i = 0 ∨ text[i - 1]? = some '\n'

def LineEnd (text : Text) (i : ℕ) : Prop := i = text.length ∨ text[i]? = some '\n'

def OnLines (text s : Text) (i : ℕ) : Prop := LineStart text i ∧ LineEnd text (i + s.length)

abbrev quoted (side : Text) : Text := stripMarkerLines side

/-- `s` is there as consecutive lines, inside an editable range. -/
def FitsIn (text s : Text) : Prop :=
  ∃ i, Occurs text s i ∧ OnLines text s i ∧ inEditable text i (i + s.length) = true

def outsideMessage : Text :=
  ("the ORIGINAL block touches code outside the editable region: only code between " ++
    "EDIT-REGION-BEGIN and EDIT-REGION-END may be modified").toList

def refusedOutside (applied : ℕ) : PatchOutcome where
  newCode := none
  nApplied := applied
  error := some outsideMessage

def TakenInside (text : Text) (block : Text × Text) : Prop :=
  (∀ hint applied blocks, applyFrom hint text applied (block :: blocks) ≠ refusedOutside applied) ∧
    ∀ start stop replace, locate text block = .edit start stop replace → inEditable text start stop = true

variable {text s search replace : Text} {block : Text × Text} {i j : ℕ}

theorem find_nil (s : Text) : find [] s = if s = [] then some 0 else none := by
  unfold find cut
  split <;> rfl

theorem find_cons (c : Char) (t s : Text) :
    find (c :: t) s = if s <+: c :: t then some 0 else (find t s).map (· + 1) := by
  unfold find
  rw [cut]
  by_cases h : s <+: c :: t
  · rw [if_pos (List.isPrefixOf_iff_prefix.mpr h), if_pos h]
    rfl
  · have hfalse : ¬ s.isPrefixOf (c :: t) = true := fun hp => h (List.isPrefixOf_iff_prefix.mp hp)
    rw [if_neg hfalse, if_neg h, Option.map_map, Option.map_map]
    rfl

theorem occurs_zero : Occurs text s 0 ↔ s <+: text := by
  unfold Occurs
  rw [List.drop_zero]

theorem find_eq_some_iff (hs : s ≠ []) : find text s = some i ↔ FirstAt text s i := by
  induction text generalizing i with
  | nil =>
    rw [find_nil, if_neg hs]
    constructor
    · intro h
      cases h
    · intro h
      have hnil := h.1
      unfold Occurs at hnil
      rw [List.drop_nil, List.prefix_nil] at hnil
      exact absurd hnil hs
  | cons c t ih =>
    rw [find_cons]
    by_cases h : s <+: c :: t
    · rw [if_pos h]
      constructor
      · intro hi
        cases hi
        exact ⟨occurs_zero.mpr h, fun j hj => absurd hj (Nat.not_lt_zero j)⟩
      · intro hi
        cases i with
        | zero => rfl
        | succ i => exact absurd (occurs_zero.mpr h) (hi.2 0 (Nat.succ_pos i))
    · rw [if_neg h, Option.map_eq_some_iff]
      constructor
      · intro hi
        obtain ⟨k, hk, hki⟩ := hi
        have hfirst := ih.mp hk
        rw [← hki]
        refine ⟨hfirst.1, ?_⟩
        intro j hj
        cases j with
        | zero => exact fun hzero => h (occurs_zero.mp hzero)
        | succ j => exact hfirst.2 j (by omega)
      · intro hi
        cases i with
        | zero => exact absurd (occurs_zero.mp hi.1) h
        | succ i => exact ⟨i, ih.mpr ⟨hi.1, fun j hj => hi.2 (j + 1) (by omega)⟩, rfl⟩

theorem exists_firstAt (h : Occurs text s i) : ∃ j, FirstAt text s j := by
  classical
  have hex : ∃ j, Occurs text s j := ⟨i, h⟩
  exact ⟨Nat.find hex, Nat.find_spec hex, fun j hj => Nat.find_min hex hj⟩

theorem find_eq_none_iff (hs : s ≠ []) : find text s = none ↔ ∀ i, ¬ Occurs text s i := by
  constructor
  · intro h i hi
    obtain ⟨j, hj⟩ := exists_firstAt hi
    rw [(find_eq_some_iff hs).mpr hj] at h
    cases h
  · intro h
    cases hfind : find text s with
    | none => rfl
    | some i => exact absurd ((find_eq_some_iff hs).mp hfind).1 (h i)

theorem FirstAt.unique (h : FirstAt text s i) (h' : FirstAt text s j) : i = j := by
  apply le_antisymm
  · exact not_lt.mp fun hlt => h.2 j hlt h'.1
  · exact not_lt.mp fun hlt => h'.2 i hlt h.1

theorem ne_nil_of_strip (h : strip s ≠ []) : s ≠ [] := by
  intro hnil
  rw [hnil] at h
  exact h rfl

theorem head_outsideMessage : outsideMessage.head? = some 't' := by decide +kernel

theorem head_notFoundMessage (hint : Option Text) : (notFoundMessage hint).head? = some 'O' := by
  unfold notFoundMessage
  rw [List.head?_append_of_ne_nil]
  · decide
  · decide

theorem empty_ne_outside : "empty ORIGINAL block: it must quote existing code".toList ≠ outsideMessage := by
  decide +kernel

theorem notFound_ne_outside (hint : Option Text) : notFoundMessage hint ≠ outsideMessage := by
  intro h
  have hhead := congrArg List.head? h
  rw [head_notFoundMessage, head_outsideMessage] at hhead
  revert hhead
  decide

theorem applyFrom_nApplied (hint : Text → Text → Option Text) (text : Text) (applied : ℕ) {blocks : List (Text × Text)}
    (herror : (applyFrom hint text applied blocks).error = some outsideMessage) :
    applied ≤ (applyFrom hint text applied blocks).nApplied := by
  induction blocks generalizing text applied with
  | nil =>
    unfold applyFrom
    split <;> exact le_rfl
  | cons block blocks ih =>
    unfold applyFrom at herror ⊢
    cases hlocate : locate text block with
    | empty =>
      simp only [hlocate] at herror
      exact absurd (Option.some.inj herror) empty_ne_outside
    | notFound search => exact le_rfl
    | outside => exact le_rfl
    | edit start stop replace =>
      simp only [hlocate] at herror ⊢
      have hle := ih _ (applied + 1) herror
      omega

theorem locate_outside_iff : locate text block = .outside ↔
    ∃ hint applied blocks, applyFrom hint text applied (block :: blocks) = refusedOutside applied := by
  constructor
  · intro h
    refine ⟨fun _ _ => none, 0, [], ?_⟩
    unfold applyFrom
    rw [h]
    rfl
  · intro h
    obtain ⟨hint, applied, blocks, h⟩ := h
    have herror : (applyFrom hint text applied (block :: blocks)).error = some outsideMessage := by rw [h]; rfl
    have happlied : (applyFrom hint text applied (block :: blocks)).nApplied = applied := by rw [h]; rfl
    unfold applyFrom at herror happlied
    cases hlocate : locate text block with
    | outside => rfl
    | empty =>
      simp only [hlocate] at herror
      exact absurd (Option.some.inj herror) empty_ne_outside
    | notFound search =>
      simp only [hlocate] at herror
      exact absurd (Option.some.inj herror) (notFound_ne_outside _)
    | edit start stop replace =>
      simp only [hlocate] at herror happlied
      have hle := applyFrom_nApplied hint _ (applied + 1) herror
      omega

def FirstInside (text s : Text) : Prop := ∃ i, FirstAt text s i ∧ inEditable text i (i + s.length) = true

theorem takenInside_iff : TakenInside text block ↔ locate text block ≠ .outside := by
  constructor
  · intro htaken hlocate
    obtain ⟨hint, applied, blocks, hrefused⟩ := locate_outside_iff.mp hlocate
    exact htaken.1 hint applied blocks hrefused
  · intro hlocate
    constructor
    · intro hint applied blocks hrefused
      exact hlocate (locate_outside_iff.mpr ⟨hint, applied, blocks, hrefused⟩)
    · intro start stop replace hedit
      exact (locate_edit hedit).2

theorem locate_of_first (hblank : strip (quoted block.1) ≠ []) (hfirst : FirstAt text (quoted block.1) i) :
    locate text block =
      if inEditable text i (i + (quoted block.1).length) then
        .edit i (i + (quoted block.1).length) (quoted block.2)
      else .outside := by
  have hfind := (find_eq_some_iff (ne_nil_of_strip hblank)).mpr hfirst
  unfold locate findIndentedMatch
  rw [if_neg hblank, hfind]

/-- A block that fits is taken just when it quotes nothing or the leftmost occurrence of what it quotes is editable. -/
theorem fitting_taken_iff (h : FitsIn text (quoted block.1)) :
    TakenInside text block ↔ strip (quoted block.1) = [] ∨ FirstInside text (quoted block.1) := by
  rw [takenInside_iff]
  by_cases hblank : strip (quoted block.1) = []
  · have hempty : locate text block = .empty := by
      unfold locate
      rw [if_pos hblank]
    simp [hblank, hempty]
  · obtain ⟨i, hi, -, -⟩ := h
    obtain ⟨j, hj⟩ := exists_firstAt hi
    rw [locate_of_first hblank hj]
    constructor
    · intro hne
      right
      refine ⟨j, hj, ?_⟩
      by_contra hin
      rw [if_neg hin] at hne
      exact hne rfl
    · intro hcondition
      cases hcondition with
      | inl hnil => exact absurd hnil hblank
      | inr hfirst =>
        obtain ⟨k, hk, hin⟩ := hfirst
        rw [hj.unique hk, if_pos hin]
        exact fun hfalse => by cases hfalse

instance (text s : Text) (i : ℕ) : Decidable (Occurs text s i) := inferInstanceAs (Decidable (s <+: text.drop i))

instance (text s : Text) (i : ℕ) : Decidable (OnLines text s i) :=
  inferInstanceAs (Decidable ((_ ∨ _) ∧ (_ ∨ _)))

def oneRegion : Text := "# EDIT-REGION-BEGIN\na\n# EDIT-REGION-END\n".toList

theorem fitting_taken_oneRegion : FitsIn oneRegion (quoted ['a']) ∧ TakenInside oneRegion (['a'], ['b']) := by
  have hfits : FitsIn oneRegion (quoted ['a']) := ⟨20, by decide, by decide, by decide⟩
  have hinside : FirstInside oneRegion (quoted ['a']) := ⟨20, ⟨by decide, by decide⟩, by decide⟩
  exact ⟨hfits, (fitting_taken_iff hfits).mpr (.inr hinside)⟩

def repeatedOutside : Text := "a\n".toList ++ oneRegion

theorem repeated_line_refused :
    FitsIn repeatedOutside (quoted ['a']) ∧ ¬ TakenInside repeatedOutside (['a'], ['b']) := by
  constructor
  · exact ⟨22, by decide, by decide, by decide⟩
  · have hfirst : FirstAt repeatedOutside (quoted ['a']) 0 :=
      ⟨by decide, fun j hj => absurd hj (Nat.not_lt_zero j)⟩
    have hout : inEditable repeatedOutside 0 (0 + (quoted ['a']).length) = false := by decide
    rw [takenInside_iff, not_not,
      (locate_of_first (by decide) hfirst : locate repeatedOutside (['a'], ['b']) = _), hout]
    rfl

def LineShift (delta : ℤ) (a b : Text) : Prop :=
  if strip a = [] then b = a
  else if 0 ≤ delta then b = List.replicate delta.toNat ' ' ++ a
  else a = List.replicate (-delta).toNat ' ' ++ b

def Shifted (delta : ℤ) (s t : Text) : Prop := List.Forall₂ (LineShift delta) (s.splitOn '\n') (t.splitOn '\n')

/-- A span of whole lines, which are the ORIGINAL lines under one shift, is replaced by the UPDATED lines under
the same shift. -/
def LinesReplaced (text : Text) (block : Text × Text) (start stop : ℕ) (replace : Text) : Prop :=
  LineStart text start ∧ LineEnd text stop ∧
    ∃ delta, Shifted delta block.1 ((text.drop start).take (stop - start)) ∧ Shifted delta block.2 replace

def isMarkerLine (ln : Text) : Bool := contains beginWord ln || contains endWord ln

def NoMarkerLine (side : Text) : Prop := ∀ ln ∈ side.splitOn '\n', isMarkerLine ln = false

def reindentLine (delta : ℤ) (ln : Text) : Text :=
  if strip ln = [] then ln
  else if 0 ≤ delta then List.replicate delta.toNat ' ' ++ ln
  else ln.drop (min (-delta).toNat (indentOf ln))

def Unclamped (delta : ℤ) (side : Text) : Prop :=
  ∀ ln ∈ side.splitOn '\n', strip ln ≠ [] → -delta ≤ indentOf ln

/-- `line` reads like the first line of `search` that is not blank, `delta` further in. -/
def ReadsLike (search line : Text) (delta : ℤ) : Prop :=
  ∃ first, ((search.splitOn '\n').find? fun ln => strip ln ≠ []) = some first ∧ strip line = strip first ∧
    delta = indentOf line - indentOf first ∧ delta ≠ 0

/-- The shift under which a block is found: none, or that of the first line that reads like its own first and makes
the whole of it occur. -/
def FoundUnder (text search : Text) (delta : ℤ) : Prop :=
  (delta = 0 ∧ ∃ i, Occurs text search i) ∨
    (∀ i, ¬ Occurs text search i) ∧ ∃ before line after, text.splitOn '\n' = before ++ line :: after ∧
      ReadsLike search line delta ∧ (∃ i, Occurs text (reindent search delta) i) ∧
      ∀ earlier ∈ before, ∀ d, ReadsLike search earlier d → ∀ i, ¬ Occurs text (reindent search d) i

/-- What a block must be for its lines to be replaced: no markers on either side, a leftmost occurrence that is whole
lines, and blanks enough for the shift. -/
def LandsOnLines (text : Text) (block : Text × Text) : Prop :=
  NoMarkerLine block.1 ∧ NoMarkerLine block.2 ∧ ∃ delta i, FoundUnder text block.1 delta ∧
    FirstAt text (reindent block.1 delta) i ∧ OnLines text (reindent block.1 delta) i ∧
    Unclamped delta block.1 ∧ Unclamped delta block.2

theorem join_eq_intercalate (ls : List Text) : join ['\n'] ls = ['\n'].intercalate ls := by
  induction ls with
  | nil => rfl
  | cons t ts ih =>
    cases ts with
    | nil => simp [join, List.intercalate]
    | cons u ts =>
      rw [join, ih]
      simp [List.intercalate, List.intersperse]

theorem join_splitOn (t : Text) : join ['\n'] (t.splitOn '\n') = t := by
  rw [join_eq_intercalate, List.intercalate_splitOn]

theorem splitOn_join {ls : List Text} (hls : ls ≠ []) (h : ∀ ln ∈ ls, '\n' ∉ ln) :
    (join ['\n'] ls).splitOn '\n' = ls := by
  rw [join_eq_intercalate, List.splitOn_intercalate _ h hls]

theorem newline_notMem {t ln : Text} (h : ln ∈ t.splitOn '\n') : '\n' ∉ ln := by
  induction t generalizing ln with
  | nil =>
    rw [List.splitOn_nil, List.mem_singleton] at h
    rw [h]
    exact List.not_mem_nil
  | cons c t ih =>
    rw [List.splitOn_cons_eq_if_modifyHead] at h
    by_cases hc : c = '\n'
    · rw [if_pos (by simp [hc]), List.mem_cons] at h
      cases h with
      | inl h =>
        rw [h]
        exact List.not_mem_nil
      | inr h => exact ih h
    · rw [if_neg (by simp [hc])] at h
      cases hsplit : t.splitOn '\n' with
      | nil => exact absurd hsplit (List.splitOn_ne_nil _ _)
      | cons u us =>
        rw [hsplit, List.modifyHead_cons, List.mem_cons] at h
        rw [hsplit, List.forall_mem_cons] at ih
        cases h with
        | inl h =>
          rw [h, List.mem_cons, not_or]
          exact ⟨fun hn => hc hn.symm, ih.1⟩
        | inr h => exact ih.2 _ h

theorem reindent_eq (side : Text) (delta : ℤ) :
    reindent side delta = join ['\n'] ((side.splitOn '\n').map (reindentLine delta)) := rfl

theorem newline_notMem_reindentLine {delta : ℤ} {ln : Text} (h : '\n' ∉ ln) : '\n' ∉ reindentLine delta ln := by
  unfold reindentLine
  split
  · exact h
  · split
    · rw [List.mem_append, not_or]
      refine ⟨?_, h⟩
      intro hn
      have heq := List.eq_of_mem_replicate hn
      revert heq
      decide
    · exact fun hn => h (List.mem_of_mem_drop hn)

theorem splitOn_reindent (side : Text) (delta : ℤ) :
    (reindent side delta).splitOn '\n' = (side.splitOn '\n').map (reindentLine delta) := by
  rw [reindent_eq]
  apply splitOn_join
  · rw [Ne, List.map_eq_nil_iff]
    exact List.splitOn_ne_nil _ _
  · intro ln hln
    obtain ⟨l, hl, hll⟩ := List.mem_map.mp hln
    rw [← hll]
    exact newline_notMem_reindentLine (newline_notMem hl)

theorem reindentLine_zero (ln : Text) : reindentLine 0 ln = ln := by
  unfold reindentLine
  split
  · rfl
  · simp

theorem reindent_zero (side : Text) : reindent side 0 = side := by
  have hmap : (side.splitOn '\n').map (reindentLine 0) = side.splitOn '\n' := by
    conv_rhs => rw [← List.map_id (side.splitOn '\n')]
    apply List.map_congr_left
    intro ln _
    exact reindentLine_zero ln
  rw [reindent_eq, hmap, join_splitOn]

theorem reindent_search_ne_nil {first : Text} {delta : ℤ}
    (hfirst : ((search.splitOn '\n').find? fun ln => strip ln ≠ []) = some first) : reindent search delta ≠ [] :=
  reindent_ne_nil (List.mem_of_find?_eq_some hfirst) (by simpa using List.find?_some hfirst)

theorem shiftedMatch_eq_some {first line : Text} {found : ℕ × Text × Text}
    (hfirst : ((search.splitOn '\n').find? fun ln => strip ln ≠ []) = some first)
    (h : shiftedMatch text search replace first line = some found) :
    ∃ delta, ReadsLike search line delta ∧ FirstAt text (reindent search delta) found.1 ∧
      found.2 = (reindent search delta, reindent replace delta) := by
  unfold shiftedMatch at h
  simp only at h
  split at h
  · rename_i hlike
    obtain ⟨idx, hidx, hfound⟩ := Option.map_eq_some_iff.mp h
    refine ⟨_, ⟨first, hfirst, hlike.1, rfl, hlike.2⟩, ?_, ?_⟩
    · rw [← hfound]
      exact (find_eq_some_iff (reindent_search_ne_nil hfirst)).mp hidx
    · rw [← hfound]
  · cases h

theorem shiftedMatch_eq_none {first line : Text} {delta : ℤ}
    (hfirst : ((search.splitOn '\n').find? fun ln => strip ln ≠ []) = some first)
    (h : shiftedMatch text search replace first line = none) (hlike : ReadsLike search line delta) :
    ∀ i, ¬ Occurs text (reindent search delta) i := by
  obtain ⟨first', hfirst', hstrip, hdelta, hne⟩ := hlike
  rw [hfirst] at hfirst'
  cases hfirst'
  unfold shiftedMatch at h
  rw [← hdelta] at h
  simp only [hstrip, hne, ne_eq, not_false_eq_true, and_self, if_true, Option.map_eq_none_iff] at h
  exact (find_eq_none_iff (reindent_search_ne_nil hfirst)).mp h

/-- What is found is the leftmost place of the block under its shift, and both sides shifted by it. -/
theorem findIndentedMatch_spec (hs : strip search ≠ []) {found : ℕ × Text × Text}
    (h : findIndentedMatch text search replace = some found) :
    ∃ delta, FoundUnder text search delta ∧ FirstAt text (reindent search delta) found.1 ∧
      found.2 = (reindent search delta, reindent replace delta) := by
  have hne := ne_nil_of_strip hs
  unfold findIndentedMatch at h
  split at h
  · rename_i idx hidx
    have hfirst := (find_eq_some_iff hne).mp hidx
    rw [← Option.some.inj h]
    refine ⟨0, Or.inl ⟨rfl, idx, hfirst.1⟩, ?_, ?_⟩
    · rw [reindent_zero]
      exact hfirst
    · rw [reindent_zero, reindent_zero]
  · rename_i hnone
    split at h
    · cases h
    · rename_i first hfirst
      obtain ⟨before, line, after, hlines, hline, hbefore⟩ := List.findSome?_eq_some_iff.mp h
      obtain ⟨delta, hlike, hat, hsides⟩ := shiftedMatch_eq_some hfirst hline
      refine ⟨delta, Or.inr ⟨(find_eq_none_iff hne).mp hnone, before, line, after, hlines, hlike, ⟨_, hat.1⟩, ?_⟩,
        hat, hsides⟩
      intro earlier hearlier d hd
      exact shiftedMatch_eq_none hfirst (hbefore earlier hearlier) hd

theorem ReadsLike.unique {line : Text} {d d' : ℤ} (h : ReadsLike search line d) (h' : ReadsLike search line d') :
    d = d' := by
  obtain ⟨first, hfirst, -, hd, -⟩ := h
  obtain ⟨first', hfirst', -, hd', -⟩ := h'
  rw [hfirst] at hfirst'
  rw [hd, hd', Option.some.inj hfirst']

theorem FoundUnder.unique {d d' : ℤ} (h : FoundUnder text search d) (h' : FoundUnder text search d') : d = d' := by
  cases h with
  | inl h =>
    cases h' with
    | inl h' => rw [h.1, h'.1]
    | inr h' =>
      obtain ⟨i, hi⟩ := h.2
      exact absurd hi (h'.1 i)
  | inr h =>
    cases h' with
    | inl h' =>
      obtain ⟨i, hi⟩ := h'.2
      exact absurd hi (h.1 i)
    | inr h' =>
      obtain ⟨-, before, line, after, hlines, hlike, ⟨i, hi⟩, hearlier⟩ := h
      obtain ⟨-, before', line', after', hlines', hlike', ⟨i', hi'⟩, hearlier'⟩ := h'
      -- Neither line stands before the other.
      have hsplit := hlines.symm.trans hlines'
      rw [List.append_eq_append_iff] at hsplit
      cases hsplit with
      | inl hsplit =>
        obtain ⟨between, hbefore, hrest⟩ := hsplit
        cases between with
        | nil =>
          have hline := (List.cons.inj hrest).1
          rw [hline] at hlike
          exact hlike.unique hlike'
        | cons u us =>
          have hline := (List.cons.inj hrest).1
          refine absurd hi (hearlier' line ?_ d hlike i)
          rw [hbefore, hline]
          simp
      | inr hsplit =>
        obtain ⟨between, hbefore, hrest⟩ := hsplit
        cases between with
        | nil =>
          have hline := (List.cons.inj hrest).1
          rw [← hline] at hlike
          exact hlike.unique hlike'
        | cons u us =>
          have hline := (List.cons.inj hrest).1
          refine absurd hi' (hearlier line' ?_ d' hlike' i')
          rw [hbefore, hline]
          simp

theorem locate_edit_spec {start stop : ℕ} {r : Text} (h : locate text block = .edit start stop r) :
    strip (quoted block.1) ≠ [] ∧ ∃ delta, FoundUnder text (quoted block.1) delta ∧
      FirstAt text (reindent (quoted block.1) delta) start ∧
      stop = start + (reindent (quoted block.1) delta).length ∧ r = reindent (quoted block.2) delta := by
  unfold locate at h
  simp only at h
  split at h
  · cases h
  · rename_i hs
    refine ⟨hs, ?_⟩
    split at h
    · cases h
    · rename_i idx s' r' hfound
      obtain ⟨delta, hunder, hat, hsides⟩ := findIndentedMatch_spec hs hfound
      simp only [Prod.mk.injEq] at hsides
      split at h
      · injection h with hstart hstop hr
        refine ⟨delta, hunder, ?_, ?_, ?_⟩
        · rw [← hstart]
          exact hat
        · rw [← hstop, ← hstart, hsides.1]
        · rw [← hr, hsides.2]
      · cases h

theorem stripMarkerLines_eq (side : Text) :
    stripMarkerLines side = join ['\n'] ((side.splitOn '\n').filter (!isMarkerLine ·)) := by
  unfold stripMarkerLines isMarkerLine
  simp only [Bool.not_or]

theorem quoted_of_noMarkerLine (h : NoMarkerLine s) : quoted s = s := by
  have hall : (s.splitOn '\n').filter (!isMarkerLine ·) = s.splitOn '\n' := by
    rw [List.filter_eq_self]
    intro ln hln
    rw [h ln hln]
    rfl
  rw [quoted, stripMarkerLines_eq, hall, join_splitOn]

theorem noMarkerLine_of_length (hne : (s.splitOn '\n').filter (!isMarkerLine ·) ≠ [])
    (h : (s.splitOn '\n').length = ((quoted s).splitOn '\n').length) : NoMarkerLine s := by
  have hlines : (quoted s).splitOn '\n' = (s.splitOn '\n').filter (!isMarkerLine ·) := by
    rw [quoted, stripMarkerLines_eq]
    apply splitOn_join hne
    intro ln hln
    exact newline_notMem (List.mem_of_mem_filter hln)
  rw [hlines] at h
  have hall := List.length_filter_eq_length_iff.mp h.symm
  intro ln hln
  have hkept := hall ln hln
  simpa using hkept

theorem mem_of_contains {mark : Text} {c : Char} (hc : c ∈ mark) (h : contains mark s = true) : c ∈ s := by
  have hmark : mark ≠ [] := List.ne_nil_of_mem hc
  cases hfind : find s mark with
  | none =>
    unfold find at hfind
    rw [Option.map_eq_none_iff] at hfind
    unfold contains at h
    rw [hfind] at h
    cases h
  | some i =>
    have hoccurs := ((find_eq_some_iff hmark).mp hfind).1
    exact List.mem_of_mem_drop (hoccurs.subset hc)

theorem ink_of_isMarkerLine {ln : Text} (h : isMarkerLine ln = true) : 'E' ∈ ln := by
  rw [isMarkerLine, Bool.or_eq_true] at h
  cases h with
  | inl h => exact mem_of_contains (by decide) h
  | inr h => exact mem_of_contains (by decide) h

theorem strip_ne_nil_of_mem {ln : Text} {c : Char} (hc : isSpace c = false) (h : c ∈ ln) : strip ln ≠ [] := by
  intro hnil
  rw [strip_eq_nil, isBlank_iff] at hnil
  rw [hnil c h] at hc
  cases hc

theorem indentOf_le (ln : Text) : indentOf ln ≤ ln.length := (List.takeWhile_prefix _).length_le

theorem take_of_le_indentOf {ln : Text} {k : ℕ} (h : k ≤ indentOf ln) : ln.take k = List.replicate k ' ' := by
  have hle := indentOf_le ln
  have hlength : (ln.take k).length = k := by
    rw [List.length_take]
    omega
  have hhere : ln.take k <+: ln.takeWhile (· == ' ') := by
    apply List.prefix_of_prefix_length_le (List.take_prefix _ _) (List.takeWhile_prefix _)
    unfold indentOf at h
    omega
  rw [List.eq_replicate_iff]
  refine ⟨hlength, ?_⟩
  intro c hc
  have hblank := List.mem_takeWhile_imp (hhere.subset hc)
  exact eq_of_beq hblank

theorem lineShift_reindentLine_iff {delta d : ℤ} {ln : Text} (h : strip ln ≠ []) :
    LineShift d ln (reindentLine delta ln) ↔ d = max delta (-indentOf ln) := by
  have hle := indentOf_le ln
  unfold LineShift reindentLine
  rw [if_neg h, if_neg h]
  by_cases hdelta : 0 ≤ delta
  · rw [if_pos hdelta, max_eq_left (by omega)]
    constructor
    · intro hshift
      split at hshift
      · have hlength := congrArg List.length hshift
        rw [List.length_append, List.length_append, List.length_replicate, List.length_replicate] at hlength
        omega
      · have hlength := congrArg List.length hshift
        rw [List.length_append, List.length_append, List.length_replicate, List.length_replicate] at hlength
        omega
    · intro hd
      rw [hd, if_pos hdelta]
  · rw [if_neg hdelta]
    constructor
    · intro hshift
      split at hshift
      · have hlength := congrArg List.length hshift
        rw [List.length_append, List.length_replicate, List.length_drop] at hlength
        omega
      · have hlength := congrArg List.length hshift
        rw [List.length_append, List.length_replicate, List.length_drop] at hlength
        omega
    · intro hd
      have hmin : min (-delta).toNat (indentOf ln) = (-d).toNat := by omega
      rw [hmin]
      have htake := take_of_le_indentOf (by omega : (-d).toNat ≤ indentOf ln)
      split
      · have hzero : d = 0 := by omega
        rw [hzero]
        rfl
      · rw [← htake, List.take_append_drop]

theorem shifted_reindent_iff {delta d : ℤ} :
    Shifted d s (reindent s delta) ↔
      ∀ ln ∈ s.splitOn '\n', strip ln ≠ [] → d = max delta (-indentOf ln) := by
  rw [Shifted, splitOn_reindent, List.forall₂_map_right_iff, List.forall₂_same]
  apply forall₂_congr
  intro ln _
  by_cases h : strip ln = []
  · simp [h, LineShift, reindentLine]
  · simp [h, lineShift_reindentLine_iff h]

theorem mem_join {c : Char} {ls : List Text} (h : c ∈ join ['\n'] ls) : c = '\n' ∨ ∃ ln ∈ ls, c ∈ ln := by
  induction ls with
  | nil => cases h
  | cons t ts ih =>
    cases ts with
    | nil => exact Or.inr ⟨t, List.mem_singleton_self t, h⟩
    | cons u ts =>
      rw [join, List.mem_append, List.mem_append, List.mem_singleton] at h
      cases h with
      | inl h =>
        cases h with
        | inl h => exact Or.inr ⟨t, List.mem_cons_self, h⟩
        | inr h => exact Or.inl h
      | inr h =>
        cases ih h with
        | inl h => exact Or.inl h
        | inr h =>
          obtain ⟨ln, hln, hc⟩ := h
          exact Or.inr ⟨ln, List.mem_cons_of_mem _ hln, hc⟩

theorem exists_ink_line (h : strip s ≠ []) : ∃ ln ∈ s.splitOn '\n', strip ln ≠ [] := by
  by_contra hall
  push Not at hall
  apply h
  rw [strip_eq_nil, isBlank_iff]
  intro c hc
  rw [← join_splitOn s] at hc
  cases mem_join hc with
  | inl hc =>
    rw [hc]
    rfl
  | inr hc =>
    obtain ⟨ln, hln, hcln⟩ := hc
    have hblank := hall ln hln
    rw [strip_eq_nil, isBlank_iff] at hblank
    exact hblank c hcln

/-- The shift a block is found under never takes more blanks than one of its lines has. -/
theorem FoundUnder.exists_line {delta : ℤ} (hs : strip search ≠ []) (h : FoundUnder text search delta) :
    ∃ ln ∈ search.splitOn '\n', strip ln ≠ [] ∧ max delta (-indentOf ln) = delta := by
  cases h with
  | inl h =>
    obtain ⟨ln, hln, hink⟩ := exists_ink_line hs
    refine ⟨ln, hln, hink, ?_⟩
    rw [h.1]
    omega
  | inr h =>
    obtain ⟨-, before, line, after, -, ⟨first, hfirst, -, hdelta, -⟩, -⟩ := h
    refine ⟨first, List.mem_of_find?_eq_some hfirst, by simpa using List.find?_some hfirst, ?_⟩
    omega

theorem noMarkerLine_of_shifted {delta d : ℤ} (h : Shifted d s (reindent (quoted s) delta)) : NoMarkerLine s := by
  have hlength := h.length_eq
  rw [splitOn_reindent, List.length_map] at hlength
  by_cases hne : (s.splitOn '\n').filter (!isMarkerLine ·) = []
  · -- All lines are markers, so there is one, which would be shifted to the empty line.
    have hempty : quoted s = [] := by
      rw [quoted, stripMarkerLines_eq, hne]
      rfl
    rw [hempty] at hlength h
    rw [Shifted, splitOn_reindent] at h
    cases hlines : s.splitOn '\n' with
    | nil => exact absurd hlines (List.splitOn_ne_nil _ _)
    | cons m ms =>
      rw [hlines, List.splitOn_nil] at h
      cases h with
      | cons hm hms =>
        have hmarker : isMarkerLine m = true := by
          rw [hlines] at hne
          by_contra hfalse
          simp [hfalse] at hne
        have hE := ink_of_isMarkerLine hmarker
        have hink := strip_ne_nil_of_mem (by decide) hE
        have hnil : reindentLine delta [] = [] := by
          have hblank : strip [] = [] := rfl
          unfold reindentLine
          rw [if_pos hblank]
        rw [hnil, LineShift, if_neg hink] at hm
        split at hm
        · have hmnil := (List.append_eq_nil_iff.mp hm.symm).2
          rw [hmnil] at hE
          cases hE
        · rw [hm, List.append_nil] at hE
          exact absurd (List.eq_of_mem_replicate hE) (by decide)
  · exact noMarkerLine_of_length hne hlength

theorem span_of_occurs {i : ℕ} (h : Occurs text s i) : (text.drop i).take (i + s.length - i) = s := by
  rw [Nat.add_sub_cancel_left]
  exact (List.prefix_iff_eq_take.mp h).symm

theorem unclamped_iff {delta : ℤ} :
    Unclamped delta s ↔ ∀ ln ∈ s.splitOn '\n', strip ln ≠ [] → delta = max delta (-indentOf ln) := by
  unfold Unclamped
  constructor
  · intro h ln hln hink
    have hle := h ln hln hink
    omega
  · intro h ln hln hink
    have heq := h ln hln hink
    omega

/-- An applied block replaces the lines it quotes just when its leftmost occurrence is whole lines, its shift finds
blanks enough on both sides, and neither side has a marker line. -/
theorem lines_replaced_iff {start stop : ℕ} (h : locate text block = .edit start stop replace) :
    LinesReplaced text block start stop replace ↔ LandsOnLines text block := by
  obtain ⟨hs, delta, hunder, hat, hstop, hreplace⟩ := locate_edit_spec h
  rw [hstop, hreplace]
  unfold LinesReplaced LandsOnLines
  rw [span_of_occurs hat.1]
  constructor
  · intro hlines
    obtain ⟨hstart, hend, d, hsearch, hupdated⟩ := hlines
    have hmarker := noMarkerLine_of_shifted hsearch
    have hmarker' := noMarkerLine_of_shifted hupdated
    rw [quoted_of_noMarkerLine hmarker] at hsearch hunder hat hend hs
    rw [quoted_of_noMarkerLine hmarker'] at hupdated
    rw [shifted_reindent_iff] at hsearch hupdated
    obtain ⟨ln, hln, hink, hmax⟩ := hunder.exists_line hs
    have hd : d = delta := by rw [hsearch ln hln hink, hmax]
    rw [hd] at hsearch hupdated
    exact ⟨hmarker, hmarker', delta, start, hunder, hat, ⟨hstart, hend⟩, unclamped_iff.mpr hsearch,
      unclamped_iff.mpr hupdated⟩
  · intro hlands
    obtain ⟨hmarker, hmarker', d, i, hunder', hat', hon, hsearch, hupdated⟩ := hlands
    rw [quoted_of_noMarkerLine hmarker] at hunder hat ⊢
    rw [quoted_of_noMarkerLine hmarker']
    have hd := hunder.unique hunder'
    rw [← hd] at hat' hon hsearch hupdated
    rw [hat'.unique hat] at hon
    exact ⟨hon.1, hon.2, delta, shifted_reindent_iff.mpr (unclamped_iff.mp hsearch),
      shifted_reindent_iff.mpr (unclamped_iff.mp hupdated)⟩

theorem locate_oneRegion : locate oneRegion (['a'], ['b']) = .edit 20 21 ['b'] := by
  have hfirst : FirstAt oneRegion (quoted ['a']) 20 := ⟨by decide, by decide⟩
  have hin : inEditable oneRegion 20 (20 + (quoted ['a']).length) = true := by decide
  rw [(locate_of_first (by decide) hfirst : locate oneRegion (['a'], ['b']) = _), if_pos hin]
  rfl

theorem lands_oneRegion : LandsOnLines oneRegion (['a'], ['b']) := by
  have hsearch : NoMarkerLine ['a'] := by
    unfold NoMarkerLine
    decide
  have hreplace : NoMarkerLine ['b'] := by
    unfold NoMarkerLine
    decide
  have hlines : OnLines oneRegion ['a'] 20 := ⟨.inr (by decide), .inr (by decide)⟩
  refine ⟨hsearch, hreplace, 0, 20, .inl ⟨rfl, 20, by decide⟩, ⟨by decide, by decide⟩, hlines, ?_, ?_⟩
  · unfold Unclamped
    decide
  · unfold Unclamped
    decide

theorem lines_replaced_oneRegion : LinesReplaced oneRegion (['a'], ['b']) 20 21 ['b'] :=
  (lines_replaced_iff locate_oneRegion).mpr lands_oneRegion

def longerLine : Text := "# EDIT-REGION-BEGIN\nba\na\n# EDIT-REGION-END\n".toList

theorem longer_line_rewritten :
    locate longerLine (['a'], ['c']) = .edit 21 22 ['c'] ∧ ¬ LinesReplaced longerLine (['a'], ['c']) 21 22 ['c'] := by
  constructor
  · have hfirst : FirstAt longerLine (quoted ['a']) 21 := ⟨by decide, by decide⟩
    have hin : inEditable longerLine 21 (21 + (quoted ['a']).length) = true := by decide
    rw [(locate_of_first (by decide) hfirst : locate longerLine (['a'], ['c']) = _), if_pos hin]
    rfl
  · intro h
    have hstart := h.1
    revert hstart
    unfold LineStart
    decide

end EvoHarness.Core
