import EvoHarness.Core.Patch
import EvoHarness.Library.Spacing

/-! What a patch leaves of the code outside the editable regions. -/
namespace EvoHarness.Core
open PyText Brackets Weave

def regions (text : Text) : List (ℕ × ℕ) := outermost (editableRanges text)

def frozenPieces (text : Text) : List Text :=
  pieces (cutFrom 0 text (regions text)).1 (cutFrom 0 text (regions text)).2

/-- A patch that is taken leaves the frozen pieces where they were, in order, and all
between them is new content of a region. -/
def FrameKept (hint : Text → Text → Option Text) (original answer : Text) : Prop :=
  ∀ code, (apply hint original answer).newCode = some code → Framed (frozenPieces original) code

/-- Every edit is taken for the sake of a range that reaches over no frozen piece. The gaps
are what has become of the regions of the original. -/
def EditsWithin : Text → List (ℕ × ℕ) → List (Text × Text) → Prop
  | _, _, [] => True
  | text, gaps, block :: blocks =>
    ∀ start stop replace, locate text block = .edit start stop replace →
      (∃ r ∈ editableRanges text, (r.1 ≤ start ∧ stop ≤ r.2) ∧ ∃ g ∈ gaps, g.1 ≤ r.1 ∧ r.2 ≤ g.2) ∧
      EditsWithin (splice text start stop replace) (moveGaps start stop replace.length gaps) blocks

instance : Std.Total eventBefore where
  total a b := by
    unfold eventBefore
    cases ha : a.2 <;> cases hb : b.2 <;> simp <;> omega

instance : IsTrans (ℕ × Bool) eventBefore where
  trans a b c hab hbc := by
    unfold eventBefore at *
    cases ha : a.2 <;> cases hb : b.2 <;> cases hc : c.2 <;> simp [ha, hb, hc] at hab hbc ⊢ <;> omega

theorem events_le {text : Text} {e : ℕ × Bool} (he : e ∈ events text) : e.1 ≤ text.length := by
  simp only [events, markers, List.mem_append, List.mem_map] at he
  cases he with
  | inl h =>
    obtain ⟨m, ⟨p, _, rfl⟩, rfl⟩ := h
    exact Nat.sub_le _ _
  | inr h =>
    obtain ⟨m, ⟨p, _, rfl⟩, rfl⟩ := h
    exact Nat.sub_le _ _

theorem ready_events (text : Text) : Ready [] ((events text).insertionSort eventBefore) := by
  apply ready_nil
  apply (List.pairwise_insertionSort eventBefore (events text)).imp
  intro a b h
  cases h with
  | inl h => exact h.le
  | inr h => exact h.1.le

theorem mem_editableRanges {text : Text} {r : ℕ × ℕ} (hr : r ∈ editableRanges text) :
    r.1 ≤ r.2 ∧ r.2 ≤ text.length := by
  obtain ⟨hle, ⟨e, he, hstop⟩, _⟩ := mem_pair (ready_events text) hr
  rw [List.mem_insertionSort] at he
  have := events_le he
  exact ⟨hle, by omega⟩

theorem laid_regions (text : Text) : Laid 0 (0 + text.length) (regions text) := by
  apply laid_of_pairwise
  · exact outermost_apart (pair_nested (ready_events text))
  · intro g hg
    exact (mem_editableRanges (mem_of_mem_outermost hg)).1
  · intro g _
    exact Nat.zero_le _
  · intro g hg
    have := (mem_editableRanges (mem_of_mem_outermost hg)).2
    omega
  · omega

theorem join_ne_nil {sep l : Text} {ls : List Text} (hl : l ∈ ls) (hne : l ≠ []) : join sep ls ≠ [] := by
  induction ls with
  | nil => simp at hl
  | cons t ts ih =>
    cases ts with
    | nil =>
      obtain rfl := List.mem_singleton.mp hl
      exact hne
    | cons u ts =>
      intro hnil
      simp only [join, List.append_eq_nil_iff] at hnil
      cases List.mem_cons.mp hl with
      | inl heq => exact hne (heq.trans hnil.1.1)
      | inr hl => exact ih hl hnil.2

theorem drop_indent_ne_nil {ln : Text} {k : ℕ} (h : strip ln ≠ []) (hk : k ≤ indentOf ln) : ln.drop k ≠ [] := by
  intro hnil
  apply h
  rw [strip_eq_nil, isBlank_iff]
  have hlen : ln.length ≤ indentOf ln := (List.drop_eq_nil_iff.mp hnil).trans hk
  have hall : ln.takeWhile (· == ' ') = ln := by
    apply (List.takeWhile_prefix _).eq_of_length
    have := (List.takeWhile_prefix (l := ln) (· == ' ')).length_le
    unfold indentOf at hlen
    omega
  intro c hc
  rw [← hall] at hc
  have hblank := List.mem_takeWhile_imp hc
  rw [eq_of_beq hblank]
  rfl

theorem reindent_ne_nil {block first : Text} {delta : ℤ} (hfirst : first ∈ block.splitOn '\n')
    (h : strip first ≠ []) : reindent block delta ≠ [] := by
  unfold reindent
  apply join_ne_nil (List.mem_map_of_mem hfirst)
  rw [if_neg h]
  split
  · intro hnil
    have hempty := (List.append_eq_nil_iff.mp hnil).2
    rw [hempty] at h
    exact h rfl
  · exact drop_indent_ne_nil h (Nat.min_le_right _ _)

theorem findIndentedMatch_ne_nil {text search replace search' replace' : Text} {idx : ℕ}
    (hs : strip search ≠ []) (h : findIndentedMatch text search replace = some (idx, search', replace')) :
    search' ≠ [] := by
  unfold findIndentedMatch at h
  split at h
  · obtain ⟨_, hrest⟩ := Prod.mk.inj (Option.some.inj h)
    obtain ⟨rfl, _⟩ := Prod.mk.inj hrest
    intro hnil
    rw [hnil] at hs
    exact hs rfl
  · split at h
    · simp at h
    · next first hfirst =>
      have hmem := List.mem_of_find?_eq_some hfirst
      have hink : strip first ≠ [] := by simpa using List.find?_some hfirst
      obtain ⟨line, _, hline⟩ := List.exists_of_findSome?_eq_some h
      unfold shiftedMatch at hline
      simp only at hline
      split at hline
      · obtain ⟨i, _, heq⟩ := Option.map_eq_some_iff.mp hline
        obtain ⟨_, hrest⟩ := Prod.mk.inj heq
        obtain ⟨rfl, _⟩ := Prod.mk.inj hrest
        exact reindent_ne_nil hmem hink
      · simp at hline

theorem locate_edit {text replace : Text} {block : Text × Text} {start stop : ℕ}
    (h : locate text block = .edit start stop replace) : start < stop ∧ inEditable text start stop = true := by
  unfold locate at h
  simp only at h
  split at h
  · simp at h
  · next hsearch =>
    split at h
    · simp at h
    · next idx search replace' hfound =>
      split at h
      · next hin =>
        injection h with hstart hstop _
        rw [← hstart, ← hstop]
        refine ⟨?_, hin⟩
        have hne := findIndentedMatch_ne_nil hsearch hfound
        have := List.length_pos_iff.mpr hne
        omega
      · simp at h

theorem applyFrom_framed {hint : Text → Text → Option Text} {fixed : List Text} {blocks : List (Text × Text)}
    {text piece code : Text} {rest : List (Text × Text)} {applied : ℕ} (htext : text = woven piece rest)
    (hpieces : pieces piece rest = fixed) (hwithin : EditsWithin text (gaps piece rest) blocks)
    (h : (applyFrom hint text applied blocks).newCode = some code) : Framed fixed code := by
  induction blocks generalizing text rest applied with
  | nil =>
    unfold applyFrom at h
    split at h
    · simp at h
    · exact ⟨piece, rest, (Option.some.inj h).symm.trans htext, hpieces⟩
  | cons block blocks ih =>
    unfold applyFrom at h
    split at h
    · simp at h
    · simp at h
    · simp at h
    · next start stop replace hedit =>
      obtain ⟨hlt, _⟩ := locate_edit hedit
      obtain ⟨⟨r, _, hr, g, hg, hin⟩, hnext⟩ := hwithin start stop replace hedit
      obtain ⟨rest', hsplice, hsame, hgaps⟩ := splice_in_gap (r := replace) (m := 0) hlt
        (by simpa [gaps] using hg) (by omega) (by omega)
      simp only [Nat.zero_add] at hgaps
      rw [← htext] at hsplice
      refine ih hsplice ?_ ?_ h
      · rw [← hpieces, pieces, pieces, hsame]
      · unfold gaps
        rw [hgaps]
        exact hnext

theorem first_within {text replace : Text} {block : Text × Text} {start stop : ℕ}
    (h : locate text block = .edit start stop replace) :
    ∃ r ∈ editableRanges text, (r.1 ≤ start ∧ stop ≤ r.2) ∧ ∃ g ∈ regions text, g.1 ≤ r.1 ∧ r.2 ≤ g.2 := by
  have hin := (locate_edit h).2
  obtain ⟨r, hr, hbounds⟩ := List.any_eq_true.mp hin
  rw [Bool.and_eq_true, decide_eq_true_eq, decide_eq_true_eq] at hbounds
  exact ⟨r, hr, hbounds, exists_outermost hr⟩

/-- A patch whose edits are all taken for ranges that reach over no frozen piece keeps
every frozen piece. -/
theorem frame_kept_of_within (hint : Text → Text → Option Text) (original answer : Text)
    (hwithin : EditsWithin original (regions original) (patchBlocks answer)) :
    FrameKept hint original answer := by
  intro code h
  obtain ⟨hwoven, hgaps⟩ := cutFrom_spec (laid_regions original)
  rw [Nat.zero_add] at hgaps
  unfold apply at h
  split at h
  · simp at h
  · apply applyFrom_framed hwoven.symm rfl _ h
    unfold gaps
    rw [hgaps]
    exact hwithin

def twoRegions : Text :=
  "# EDIT-REGION-BEGIN\na\n# EDIT-REGION-END\nc\n".toList ++
    "# EDIT-REGION-BEGIN\nb\n# EDIT-REGION-END\n".toList

def patchBlock (search replace : Text) : Text :=
  "<<<<<<< ORIGINAL\n".toList ++ search ++ "\n=======\n".toList ++ replace ++ "\n>>>>>>> UPDATED\n".toList

/-- A marker written in two halves in each region, and then an edit between the regions. -/
def halvedMarkers : Text :=
  patchBlock ['a'] "EDIT-REGION-(".toList ++ patchBlock ['('] "BEGIN".toList ++
    patchBlock ['b'] "EDIT-REGION-)".toList ++ patchBlock [')'] "END".toList ++ patchBlock ['c'] ['d']

theorem frame_kept_in_region :
    ((apply (fun _ _ => none) twoRegions (patchBlock ['a'] ['e'])).newCode.isSome = true) ∧
      FrameKept (fun _ _ => none) twoRegions (patchBlock ['a'] ['e']) := by
  constructor
  · decide
  · apply frame_kept_of_within
    have hblocks : patchBlocks (patchBlock ['a'] ['e']) = [(['a'], ['e'])] := by
      decide
    rw [hblocks]
    intro start stop replace h
    exact ⟨first_within h, trivial⟩

theorem halved_markers_reach_between :
    ¬ FrameKept (fun _ _ => none) twoRegions halvedMarkers := by
  intro h
  have hcode : (apply (fun _ _ => none) twoRegions halvedMarkers).newCode =
      some ("# EDIT-REGION-BEGIN\nEDIT-REGION-BEGIN\n# EDIT-REGION-END\nd\n".toList ++
        "# EDIT-REGION-BEGIN\nEDIT-REGION-END\n# EDIT-REGION-END\n".toList) := by
    decide +kernel
  have hpiece : "# EDIT-REGION-END\nc\n# EDIT-REGION-BEGIN".toList ∈ frozenPieces twoRegions := by
    decide
  have hin := (h _ hcode).isInfix hpiece
  revert hin
  decide +kernel

end EvoHarness.Core
