import EvoHarness.Grade
import EvoHarness.PreambleSplit

/-! The proof body read twice out of one candidate file: between the marker words, for the
splice, and behind the marks themselves, for the verifier. -/
namespace EvoHarness.Proof.Envelope
open PyText

def SameTerm (suffix b : Text) : Prop :=
  suffix = b ∨ ∃ gap opener, isBlank gap = true ∧ opener ∈ danglingMarks ∧ suffix = b ++ (gap ++ opener)

/-- The two extractors agree: the splice's body is what stands behind the first `:=` outside
brackets of the verifier's, without the line ends the split itself strips, and there is none
only where there is no such `:=`. -/
def BodiesAgree (candidate body : Text) : Prop :=
  (proofBody candidate = none ↔ cutDefinition 0 body = none) ∧
    ∀ signature after b, cutDefinition 0 body = some (signature, after) → proofBody candidate = some b →
      SameTerm (bodyOf after) b

/-- A term, at most one line with a comment opener alone, and the blank start of the end
mark's line. -/
structure Layout (t kept opener start : Text) : Prop where
  text : t = kept ++ (opener ++ start)
  keptEnded : EndsLine kept
  ink : isBlank kept = false
  last : ∀ line ∈ (splitlines kept).getLast?, strip line ∉ danglingMarks
  newlines : ∀ c ∈ rstrip kept, isLineBreak c = true → c = '\n'
  openerEnded : EndsLine opener
  dangling : ∀ line ∈ splitlines opener, strip line ∈ danglingMarks
  single : (splitlines opener).length ≤ 1
  blank : isBlank start = true
  unbroken : ∀ c ∈ start, isLineBreak c = false

def EndsAlone (t : Text) : Prop := ∃ kept opener start, Layout t kept opener start

/-- The marker words stand nowhere but in the marks, as far as they are looked for, and the
text between `:=` and the end mark is laid out as above. -/
structure ReadsAlike (m : Marked) : Prop where
  begins : contains regionBegin m.before = false
  ends : ∀ signature after, cutDefinition 0 m.region = some (signature, after) →
    contains regionEnd m.region = false ∧ EndsAlone (after.dropWhile (· == '\n'))

variable {t u v b : Text} {lines : List Text}

def dropOpeners (lines : List Text) : List Text :=
  (lines.reverse.dropWhile fun line => strip line ∈ danglingMarks).reverse

def trimmed (t : Text) : Text := rstrip (join ['\n'] (dropOpeners (splitlines (t ++ "--".toList))))

theorem dropOpeners_append_opener {line : Text} (h : strip line ∈ danglingMarks) :
    dropOpeners (lines ++ [line]) = dropOpeners lines := by
  simp [dropOpeners, h]

theorem dropOpeners_of_last (h : ∀ line ∈ lines.getLast?, strip line ∉ danglingMarks) : dropOpeners lines = lines := by
  cases List.eq_nil_or_concat lines with
  | inl hnil =>
    rw [hnil]
    rfl
  | inr hlast =>
    obtain ⟨front, line, hlines⟩ := hlast
    have hline := h line (by simp [hlines])
    rw [hlines, dropOpeners]
    simp [hline]

theorem exists_dropOpeners (lines : List Text) : ∃ openers, lines = dropOpeners lines ++ openers ∧
    (∀ line ∈ openers, strip line ∈ danglingMarks) ∧ ∀ line ∈ (dropOpeners lines).getLast?, strip line ∉ danglingMarks := by
  refine ⟨(lines.reverse.takeWhile fun line => strip line ∈ danglingMarks).reverse, ?_, ?_, ?_⟩
  · rw [dropOpeners, ← List.reverse_append, List.takeWhile_append_dropWhile, List.reverse_reverse]
  · intro line hline
    simpa using List.mem_takeWhile_imp (List.mem_reverse.mp hline)
  · intro line hline
    have hfails := List.head?_dropWhile_not (fun line => decide (strip line ∈ danglingMarks)) lines.reverse
    rw [dropOpeners, List.getLast?_reverse] at hline
    rw [show (lines.reverse.dropWhile fun line => decide (strip line ∈ danglingMarks)).head? = some line from hline] at hfails
    simpa using hfails

theorem splitlines_eq_nil (h : splitlines t = []) : t = [] := by
  by_contra ht
  rw [splitlines_step ht] at h
  cases h

theorem strip_opener : strip "--".toList ∈ danglingMarks := by decide

theorem ink_opener {opener : Text} (h : opener ∈ danglingMarks) : ink opener = opener := by
  have hall : ∀ o ∈ danglingMarks, ink o = o := by decide
  exact hall opener h

theorem length_opener {opener : Text} (h : opener ∈ danglingMarks) : 1 ≤ opener.length ∧ opener.length ≤ 2 := by
  have hall : ∀ o ∈ danglingMarks, 1 ≤ o.length ∧ o.length ≤ 2 := by decide
  exact hall opener h

theorem not_two_openers : ∀ o ∈ danglingMarks, ∀ o' ∈ danglingMarks, ∀ p ∈ danglingMarks, ¬ o ++ o' <+: p := by decide

theorem ink_splitlines (t : Text) : (splitlines t).flatMap ink = ink t := by
  rw [← ink_join, ← ink_rstrip, rstrip_join, ink_rstrip, ink_newlines]

theorem exists_line {line : Text} (h : splitlines t = [line]) : ∃ g, isBlank g = true ∧ t = line ++ g := by
  have ht : t ≠ [] := by
    intro hnil
    rw [hnil] at h
    cases h
  rw [splitlines_step ht] at h
  injection h with hfirst hrest
  refine ⟨t.dropWhile (!isLineBreak ·), ?_, ?_⟩
  · have hnext := splitlines_eq_nil hrest
    rw [nextLines] at hnext
    cases hdrop : t.dropWhile (!isLineBreak ·) with
    | nil => rfl
    | cons c v =>
      have hc : isLineBreak c = true := by
        have hfails := List.head?_dropWhile_not (!isLineBreak ·) t
        rw [hdrop] at hfails
        simpa using hfails
      rw [hdrop] at hnext
      cases v with
      | nil => simp [isBlank, isSpace_of_isLineBreak hc]
      | cons d v =>
        rw [afterBreak] at hnext
        split at hnext
        · rename_i hreturn
          rw [hnext, hreturn.1, hreturn.2]
          decide
        · cases hnext
  · rw [← hfirst]
    exact List.takeWhile_append_dropWhile.symm

theorem isBlank_false_of_ink (h : isBlank t = false) : ink t ≠ [] := by
  intro hnil
  rw [ink_eq_nil.mp hnil] at h
  cases h

theorem isBlank_rstrip (h : isBlank u = false) : isBlank (rstrip u) = false := by
  rw [← Bool.not_eq_true, ← ink_eq_nil, ink_rstrip, ink_eq_nil, h]
  decide

theorem SameTerm.length (h : SameTerm u v) : (ink u).length ≤ (ink v).length + 2 ∧ (ink v).length ≤ (ink u).length := by
  cases h with
  | inl h =>
    rw [h]
    omega
  | inr h =>
    obtain ⟨gap, opener, hgap, hopener, rfl⟩ := h
    have hlength := length_opener hopener
    rw [ink_append, ink_append, ink_of_blank hgap, ink_opener hopener, List.length_append, List.nil_append]
    omega

theorem splitlines_mark (t : Text) :
    splitlines (t ++ "--".toList) = splitlines (linesBefore t) ++ [ownStart t ++ "--".toList] :=
  splitlines_last (by simp) fun c hc => by
    have hmark : "--".toList.all (fun d => !isLineBreak d) = true := by decide
    simpa using List.all_eq_true.mp hmark c hc

theorem trimmed_of_ink (h : isBlank (ownStart t) = false) : (ink (trimmed t)).length = (ink t).length + 2 := by
  have hstays : strip (ownStart t ++ "--".toList) ∉ danglingMarks := by
    intro hmem
    have hlength := length_opener hmem
    rw [← ink_opener hmem, ink_strip, ink_append, List.length_append] at hlength
    have hpos := List.length_pos_iff.mpr (isBlank_false_of_ink h)
    have hmark : (ink "--".toList).length = 2 := by decide
    omega
  have hlast : ∀ line ∈ (splitlines (t ++ "--".toList)).getLast?, strip line ∉ danglingMarks := by
    intro line hline
    rw [splitlines_mark, List.getLast?_concat] at hline
    rw [← Option.some.inj hline]
    exact hstays
  rw [trimmed, dropOpeners_of_last hlast, rstrip_join, ink_rstrip, ink_newlines, ink_append, List.length_append]
  rfl

theorem strip_ownStart_mark (h : isBlank (ownStart t) = true) :
    strip (ownStart t ++ "--".toList) ∈ danglingMarks := by
  rw [strip_blank_append h]
  exact strip_opener

theorem exists_trimmed (h : isBlank (ownStart t) = true) : ∃ kept opener, t = kept ++ (opener ++ ownStart t) ∧
    EndsLine kept ∧ EndsLine opener ∧ (∀ line ∈ (splitlines kept).getLast?, strip line ∉ danglingMarks) ∧
    (∀ line ∈ splitlines opener, strip line ∈ danglingMarks) ∧ trimmed t = newlines (rstrip kept) := by
  obtain ⟨openers, hsplit, hopeners, hlast⟩ := exists_dropOpeners (splitlines (linesBefore t))
  obtain ⟨kept, opener, hlines, hkept, hopener, hended⟩ := splitlines_eq_append hsplit
  have hbefore := endsLine_linesBefore t
  refine ⟨kept, opener, ?_, ?_, ?_, ?_, ?_, ?_⟩
  · rw [← List.append_assoc, ← hlines, linesBefore_append]
  · cases hended with
    | inl hnil =>
      rw [hlines, hnil, List.append_nil] at hbefore
      exact hbefore
    | inr hkeptEnded => exact hkeptEnded
  · rw [hlines] at hbefore
    exact hbefore.suffix (List.suffix_append _ _)
  · rw [hkept]
    exact hlast
  · rw [hopener]
    exact hopeners
  · rw [trimmed, splitlines_mark, dropOpeners_append_opener (strip_ownStart_mark h), ← hkept, rstrip_join, rstrip_newlines]

theorem rstrip_of_ink {c : Char} (hc : isSpace c = false) (s : Text) : rstrip (s ++ [c]) = s ++ [c] :=
  rstrip_of_last fun d hd => by
    rw [List.getLast?_concat] at hd
    rw [← Option.some.inj hd]
    exact hc

theorem rstrip_rstrip (t : Text) : rstrip (rstrip t) = rstrip t := by
  cases rstrip_last t with
  | inl h =>
    rw [h]
    rfl
  | inr h =>
    obtain ⟨s, c, hs, hc⟩ := h
    rw [hs]
    exact rstrip_of_ink hc s

theorem rstrip_newlines_rstrip (t : Text) : rstrip (newlines (rstrip t)) = newlines (rstrip t) := by
  rw [← rstrip_newlines, rstrip_rstrip]

theorem rstrip_opener (kept : Text) {opener start line : Text} (hline : splitlines opener = [line]) (hmark : strip line ∈ danglingMarks)
    (hstart : isBlank start = true) : ∃ g, isBlank g = true ∧
      rstrip (kept ++ (opener ++ start)) = kept ++ (g ++ strip line) := by
  obtain ⟨e, he, hopener⟩ := exists_line hline
  obtain ⟨g, hg, hleft⟩ := exists_lstrip line
  obtain ⟨k, hk, hright⟩ := exists_rstrip (lstrip line)
  have hstrip : rstrip (lstrip line) = strip line := rfl
  have hall : kept ++ (opener ++ start) = kept ++ (g ++ strip line) ++ (k ++ (e ++ start)) := by
    conv_lhs => rw [hopener, hleft, hright, hstrip]
    simp
  refine ⟨g, hg, ?_⟩
  have hends : ∃ s c, strip line = s ++ [c] ∧ isSpace c = false := by
    cases rstrip_last (lstrip line) with
    | inl hnil =>
      have hpos := length_opener hmark
      rw [← hstrip, hnil] at hpos
      exact absurd hpos.1 (by decide)
    | inr h => exact h
  obtain ⟨s, c, hs, hc⟩ := hends
  rw [hall, rstrip_append_blank (by rw [isBlank_append, isBlank_append, hk, he, hstart]; rfl), hs,
    ← List.append_assoc, ← List.append_assoc]
  exact rstrip_of_ink hc _

theorem Layout.trimmed_eq {kept opener start : Text} (h : Layout t kept opener start) : trimmed t = rstrip kept := by
  have hown : splitlines (t ++ "--".toList) = splitlines kept ++ splitlines opener ++ [start ++ "--".toList] := by
    have hstart : ∀ c ∈ start ++ "--".toList, isLineBreak c = false := by
      intro c hc
      cases List.mem_append.mp hc with
      | inl hmem => exact h.unbroken c hmem
      | inr hmem =>
        have hmark : "--".toList.all (fun d => !isLineBreak d) = true := by decide
        simpa using List.all_eq_true.mp hmark c hmem
    have hhead : ∀ s : Text, (∀ c ∈ s.head?, isLineBreak c = false) → s.head? ≠ some '\n' := by
      intro s hs hnewline
      exact absurd (hs '\n' hnewline) (by decide)
    have hopener : splitlines (opener ++ (start ++ "--".toList)) = splitlines opener ++ [start ++ "--".toList] := by
      rw [splitlines_endsLine h.openerEnded fun hboth => hhead _ (fun c hc => hstart c (List.mem_of_mem_head? hc)) hboth.2,
        splitlines_single hstart (by simp)]
    have hkept : splitlines (kept ++ (opener ++ (start ++ "--".toList))) =
        splitlines kept ++ splitlines (opener ++ (start ++ "--".toList)) := by
      refine splitlines_endsLine h.keptEnded fun hboth => ?_
      cases hone : opener with
      | nil =>
        rw [hone] at hboth
        exact hhead _ (fun c hc => hstart c (List.mem_of_mem_head? hc)) hboth.2
      | cons c rest =>
        rw [hone] at hboth
        have hc : c = '\n' := by simpa using hboth.2
        have hfirst := h.dangling (firstLine opener) (by rw [splitlines_step (by simp [hone])]; simp)
        have hnil : firstLine opener = [] := by
          rw [hone, hc]
          rfl
        rw [hnil] at hfirst
        exact absurd hfirst (by decide)
    rw [h.text, List.append_assoc, List.append_assoc, hkept, hopener, ← List.append_assoc]
  have hopeners : dropOpeners (splitlines kept ++ splitlines opener) = splitlines kept := by
    cases hlines : splitlines opener with
    | nil => rw [List.append_nil, dropOpeners_of_last h.last]
    | cons line more =>
      have hsingle := h.single
      rw [hlines] at hsingle
      have hmore : more = [] := List.length_eq_zero_iff.mp (by simpa using hsingle)
      have hline := h.dangling line (by simp [hlines])
      rw [hmore, dropOpeners_append_opener hline, dropOpeners_of_last h.last]
  have hmark : strip (start ++ "--".toList) ∈ danglingMarks := by
    rw [strip_blank_append h.blank]
    exact strip_opener
  rw [trimmed, hown, dropOpeners_append_opener hmark, hopeners, rstrip_join, rstrip_newlines]
  exact (newlines_eq_self_iff _).mpr h.newlines

theorem ink_line {line : Text} (h : strip line ∈ danglingMarks) : ink line = strip line := by
  rw [← ink_strip, ink_opener h]

theorem one_opener {opener o : Text} (hdangling : ∀ line ∈ splitlines opener, strip line ∈ danglingMarks)
    (ho : o ∈ danglingMarks) (h : ink opener = o) : ∃ line, splitlines opener = [line] ∧ strip line = o := by
  rw [← ink_splitlines] at h
  cases hlines : splitlines opener with
  | nil =>
    rw [hlines] at h
    have hlength := length_opener ho
    rw [← h] at hlength
    exact absurd hlength.1 (by decide)
  | cons line more =>
    rw [hlines] at hdangling h
    rw [List.forall_mem_cons] at hdangling
    rw [List.flatMap_cons, ink_line hdangling.1] at h
    cases more with
    | nil => exact ⟨line, rfl, by simpa using h⟩
    | cons next more =>
      have hnext := hdangling.2 next List.mem_cons_self
      rw [List.flatMap_cons, ink_line hnext, ← List.append_assoc] at h
      exact absurd ⟨_, h⟩ (not_two_openers _ hdangling.1 _ hnext _ ho)

theorem no_opener {opener : Text} (hdangling : ∀ line ∈ splitlines opener, strip line ∈ danglingMarks)
    (h : ink opener = []) : opener = [] := by
  refine splitlines_eq_nil (List.eq_nil_iff_forall_not_mem.mpr fun line hline => ?_)
  have hlength := length_opener (hdangling line hline)
  have hink := List.flatMap_eq_nil_iff.mp ((ink_splitlines opener).trans h) line hline
  rw [ink_line (hdangling line hline)] at hink
  rw [hink] at hlength
  exact absurd hlength.1 (by decide)

/-- The trimmed text is the term exactly when nothing but the mark's opener, and perhaps one
more, is dropped, and the lines are joined as they were. -/
theorem sameTerm_iff (t : Text) : trimmed t ≠ [] ∧ SameTerm (rstrip t) (trimmed t) ↔ EndsAlone t := by
  constructor
  · intro h
    cases hown : isBlank (ownStart t) with
    | false =>
      have hlength := h.2.length.2
      rw [trimmed_of_ink hown, ink_rstrip] at hlength
      omega
    | true =>
      obtain ⟨kept, opener, ht, hkept, hopener, hlast, hdangling, htrimmed⟩ := exists_trimmed hown
      have hblank : isBlank kept = false := by
        rw [← Bool.not_eq_true]
        intro hblank
        refine h.1 ?_
        have hnil : rstrip kept = [] := by
          have hempty := rstrip_append_blank (t := []) hblank
          exact hempty
        rw [htrimmed, hnil]
        rfl
      have hink : ink (rstrip t) = ink kept ++ ink opener := by
        conv_lhs => rw [ink_rstrip, ht, ink_append, ink_append, ink_of_blank hown, List.append_nil]
      have hterm : ink (trimmed t) = ink kept := by rw [htrimmed, ink_newlines, ink_rstrip]
      cases h.2 with
      | inl hsame =>
        have hnone : ink opener = [] := by
          rw [hsame, hterm] at hink
          simpa using hink.symm
        have hnil := no_opener hdangling hnone
        refine ⟨kept, opener, ownStart t, ht, hkept, hblank, hlast, ?_, hopener, hdangling, by simp [hnil], hown,
          unbroken_ownStart t⟩
        rw [htrimmed] at hsame
        rw [← newlines_eq_self_iff, ← hsame]
        conv_lhs => rw [ht, hnil, List.nil_append, rstrip_append_blank hown]
      | inr hsame =>
        obtain ⟨gap, o, hgap, ho, hsame⟩ := hsame
        have hone : ink opener = o := by
          rw [hsame, ink_append, ink_append, hterm, ink_of_blank hgap, ink_opener ho, List.nil_append] at hink
          exact (List.append_cancel_left hink).symm
        obtain ⟨line, hline, hstrip⟩ := one_opener hdangling ho hone
        refine ⟨kept, opener, ownStart t, ht, hkept, hblank, hlast, ?_, hopener, hdangling, by simp [hline], hown,
          unbroken_ownStart t⟩
        obtain ⟨g, hg, hrstrip⟩ := rstrip_opener kept hline (hstrip.symm ▸ ho) hown
        rw [← ht, hsame, hstrip, ← List.append_assoc, ← List.append_assoc, htrimmed] at hrstrip
        have hcut := congrArg rstrip (List.append_cancel_right hrstrip)
        rw [rstrip_append_blank hgap, rstrip_append_blank hg, rstrip_newlines_rstrip] at hcut
        exact (newlines_eq_self_iff _).mp hcut
  · intro h
    obtain ⟨kept, opener, start, hlayout⟩ := h
    rw [hlayout.trimmed_eq]
    constructor
    · intro hnil
      have hblank := isBlank_rstrip hlayout.ink
      rw [hnil] at hblank
      cases hblank
    · cases hlines : splitlines opener with
      | nil =>
        refine Or.inl ?_
        rw [hlayout.text, splitlines_eq_nil hlines, List.nil_append, rstrip_append_blank hlayout.blank]
      | cons line more =>
        have hsingle := hlayout.single
        rw [hlines] at hsingle
        have hmore : more = [] := List.length_eq_zero_iff.mp (by simpa using hsingle)
        have hline := hlayout.dangling line (by simp [hlines])
        obtain ⟨g, hg, hrstrip⟩ := rstrip_opener kept (hmore ▸ hlines) hline hlayout.blank
        obtain ⟨k, hk, hright⟩ := exists_rstrip kept
        refine Or.inr ⟨k ++ g, strip line, by rw [isBlank_append, hk, hg]; rfl, hline, ?_⟩
        rw [hlayout.text, hrstrip]
        conv_lhs => rw [hright]
        simp

theorem cut_append {mark a : Text} (h : cut mark t = some (a, b)) (u : Text) : cut mark (t ++ u) = some (a, b ++ u) := by
  induction t generalizing a with
  | nil =>
    rw [cut] at h
    split at h
    · rename_i hmark
      obtain ⟨rfl, rfl⟩ := Prod.mk.inj (Option.some.inj h)
      rw [hmark]
      cases u with
      | nil => rfl
      | cons c u => rfl
    · cases h
  | cons c t ih =>
    rw [cut] at h
    split at h
    · rename_i hmark
      obtain ⟨rest, hrest⟩ := List.isPrefixOf_iff_prefix.mp hmark
      obtain ⟨rfl, rfl⟩ := Prod.mk.inj (Option.some.inj h)
      have hall : mark.isPrefixOf (c :: (t ++ u)) = true := by
        rw [List.isPrefixOf_iff_prefix, ← List.cons_append, ← hrest, List.append_assoc]
        exact List.prefix_append _ _
      rw [List.cons_append, cut, if_pos hall, ← List.cons_append, ← hrest, List.append_assoc, List.drop_left,
        List.drop_left]
    · rename_i hmark
      obtain ⟨p, hp, hpair⟩ := Option.map_eq_some_iff.mp h
      obtain ⟨rfl, rfl⟩ := Prod.mk.inj hpair
      have hnone : ¬ mark.isPrefixOf (c :: (t ++ u)) = true := by
        intro hall
        have hlength : mark.length ≤ t.length := by
          rw [cut_eq hp, List.length_append, List.length_append]
          omega
        refine hmark (List.isPrefixOf_iff_prefix.mpr ?_)
        refine List.prefix_of_prefix_length_le (List.isPrefixOf_iff_prefix.mp hall) ?_ (by simp; omega)
        exact List.prefix_append (c :: t) u
      rw [List.cons_append, cut, if_neg hnone, ih hp]
      rfl

theorem cut_of_free {mark : Text} (hfree : contains mark t = false)
    (hstraddle : ∀ w, w <:+ mark → w ≠ [] → w ≠ mark → ¬ w <+: u) :
    cut mark (t ++ u) = (cut mark u).map fun p => (t ++ p.1, p.2) := by
  induction t with
  | nil => cases h : cut mark u <;> simp [h]
  | cons c t ih =>
    rw [contains, cut] at hfree
    split at hfree
    · cases hfree
    · rename_i hmark
      have hnone : ¬ mark.isPrefixOf (c :: (t ++ u)) = true := by
        intro hall
        have hprefix := List.isPrefixOf_iff_prefix.mp hall
        obtain ⟨rest, hrest⟩ := hprefix
        rw [← List.cons_append, List.append_eq_append_iff] at hrest
        cases hrest with
        | inl hshort =>
          obtain ⟨w, hw, _⟩ := hshort
          exact hmark (List.isPrefixOf_iff_prefix.mpr ⟨w, hw.symm⟩)
        | inr hlong =>
          obtain ⟨w, hw, hu⟩ := hlong
          by_cases hwnil : w = []
          · rw [hwnil, List.append_nil] at hw
            exact hmark (by rw [hw]; exact List.isPrefixOf_iff_prefix.mpr List.prefix_rfl)
          · refine hstraddle w ⟨c :: t, hw.symm⟩ hwnil ?_ ⟨rest, hu.symm⟩
            intro hself
            have hlength := congrArg List.length hw
            rw [hself, List.length_append, List.length_cons] at hlength
            omega
      rw [List.cons_append, cut, if_neg hnone, ih (by simpa [contains] using hfree)]
      cases cut mark u with
      | none => rfl
      | some p => rfl

theorem not_prefix_of_dashes {w : Text} (rest : Text) (h : ¬ w <+: "--".toList) (h' : ¬ "--".toList <+: w) :
    ¬ w <+: "--".toList ++ rest := by
  intro hw
  cases List.prefix_or_prefix_of_prefix hw (List.prefix_append _ _) with
  | inl hshort => exact h hshort
  | inr hlong => exact h' hlong

theorem beginMark_eq : beginMark = "-- ".toList ++ regionBegin := by
  unfold beginMark
  decide

theorem endMark_eq : endMark = "-- ".toList ++ regionEnd := by
  unfold endMark
  decide

theorem begin_suffix : ∀ w ∈ regionBegin.tails, w ≠ [] → ¬ w <+: "--".toList ∧ ¬ "--".toList <+: w := by decide

theorem end_suffix : ∀ w ∈ regionEnd.tails, w ≠ [] → ¬ w <+: "--".toList ∧ ¬ "--".toList <+: w := by decide

theorem cut_mark {word : Text} (hfree : contains word t = false) (hhead : word.head? = some 'E')
    (hsuffix : ∀ w ∈ word.tails, w ≠ [] → ¬ w <+: "--".toList ∧ ¬ "--".toList <+: w) (rest : Text) :
    cut word (t ++ ("-- ".toList ++ (word ++ rest))) = some (t ++ "-- ".toList, rest) := by
  have hself : cut word ("-- ".toList ++ (word ++ rest)) = some ("-- ".toList, rest) := by
    cases word with
    | nil => cases hhead
    | cons c word =>
      have hc : c = 'E' := by simpa using hhead
      rw [hc]
      simp [cut]
  rw [cut_of_free hfree, hself]
  · rfl
  · intro w hw hne _
    have hboth := hsuffix w ((List.mem_tails w word).mpr hw) hne
    exact not_prefix_of_dashes (' ' :: (word ++ rest)) hboth.1 hboth.2

variable {m : Marked}

theorem Marked.text_words (m : Marked) : m.text =
    m.before ++ ("-- ".toList ++ (regionBegin ++ (m.region ++ ("-- ".toList ++ (regionEnd ++ m.after))))) := by
  rw [Marked.text, beginMark_eq, endMark_eq]
  simp

theorem Marked.contains_words (m : Marked) : contains regionBegin m.text = true ∧ contains regionEnd m.text = true := by
  rw [m.text_words]
  constructor
  · rw [← List.append_assoc, ← List.append_assoc]
    exact contains_append_self _ _ _
  · rw [← List.append_assoc, ← List.append_assoc, ← List.append_assoc, ← List.append_assoc, ← List.append_assoc]
    exact contains_append_self _ _ _

theorem editRegion_text (hbegins : contains regionBegin m.before = false) :
    editRegion m.text = beforeEnd (m.region ++ ("-- ".toList ++ (regionEnd ++ m.after))) := by
  have hwords := m.contains_words
  rw [editRegion, hwords.1, hwords.2, afterBegin, m.text_words, cut_mark hbegins (by decide) begin_suffix]
  rfl

theorem beforeEnd_free (hfree : contains regionEnd m.region = false) :
    beforeEnd (m.region ++ ("-- ".toList ++ (regionEnd ++ m.after))) = m.region ++ "-- ".toList := by
  rw [beforeEnd, cut_mark hfree (by decide) end_suffix]
  rfl

theorem beforeEnd_cut {y z : Text} (hcut : cut regionEnd m.region = some (y, z)) :
    beforeEnd (m.region ++ ("-- ".toList ++ (regionEnd ++ m.after))) = y := by
  rw [beforeEnd, cut_append hcut]
  rfl

def depthAfter (depth : ℤ) (c : Char) : ℤ :=
  if c ∈ openBrackets then depth + 1 else if c ∈ closeBrackets then depth - 1 else depth

theorem cutDefinition_cons (depth : ℤ) (c : Char) (t : Text) : cutDefinition depth (c :: t) =
    if c = ':' ∧ t.head? = some '=' ∧ depth = 0 then some ([], t.tail)
    else (cutDefinition (depthAfter depth c) t).map fun p => (c :: p.1, p.2) := by
  rw [cutDefinition]
  by_cases hdefined : c = ':' ∧ t.head? = some '=' ∧ depth = 0
  · have hopen : ':' ∉ openBrackets ∧ ':' ∉ closeBrackets := by decide
    rw [hdefined.1, if_neg hopen.1, if_neg hopen.2, hdefined.2.1, hdefined.2.2]
    rfl
  · rw [if_neg hdefined, if_neg hdefined, depthAfter]
    split
    · rfl
    · split
      · rfl
      · rfl

theorem cutDefinition_append {depth : ℤ} {x a : Text} (h : cutDefinition depth t = some (x, a)) (u : Text) :
    cutDefinition depth (t ++ u) = some (x, a ++ u) := by
  induction t generalizing depth x with
  | nil => cases h
  | cons c t ih =>
    rw [cutDefinition_cons] at h
    rw [List.cons_append, cutDefinition_cons]
    cases t with
    | nil => cases (if_neg (by simp)).symm.trans h
    | cons d t =>
      have hhead : (d :: t ++ u).head? = (d :: t).head? := rfl
      rw [hhead]
      split at h
      · rename_i hdefined
        obtain ⟨rfl, rfl⟩ := Prod.mk.inj (Option.some.inj h)
        rw [if_pos hdefined]
        rfl
      · rename_i hdefined
        obtain ⟨p, hp, hpair⟩ := Option.map_eq_some_iff.mp h
        obtain ⟨rfl, rfl⟩ := Prod.mk.inj hpair
        rw [if_neg hdefined, ih hp]
        rfl

theorem cutDefinition_of_none {depth : ℤ} (h : cutDefinition depth t = none) (hu : ∀ c ∈ u, c ≠ ':' ∧ c ≠ '=') :
    cutDefinition depth (t ++ u) = none := by
  induction t generalizing depth with
  | nil =>
    induction u generalizing depth with
    | nil => rfl
    | cons c u ih =>
      rw [List.forall_mem_cons] at hu
      rw [List.nil_append] at ih ⊢
      rw [cutDefinition_cons, if_neg fun hdefined => hu.1.1 hdefined.1, ih hu.2 rfl]
      rfl
  | cons c t ih =>
    rw [cutDefinition_cons] at h
    split at h
    · cases h
    · rename_i hdefined
      have hnone : ¬ (c = ':' ∧ (t ++ u).head? = some '=' ∧ depth = 0) := by
        intro hall
        cases t with
        | nil => exact (hu '=' (List.mem_of_mem_head? hall.2.1)).2 rfl
        | cons d t => exact hdefined hall
      rw [List.cons_append, cutDefinition_cons, if_neg hnone, ih (by simpa using h)]
      rfl

theorem cutDefinition_prefix {depth : ℤ} (h : cutDefinition depth (t ++ u) = none) : cutDefinition depth t = none := by
  cases hcut : cutDefinition depth t with
  | none => rfl
  | some p =>
    rw [cutDefinition_append hcut] at h
    cases h

theorem cutDefinition_newlines {n : Text} (hn : ∀ c ∈ n, c = '\n') (t : Text) :
    cutDefinition 0 (n ++ t) = (cutDefinition 0 t).map fun p => (n ++ p.1, p.2) := by
  induction n with
  | nil => cases h : cutDefinition 0 t <;> simp [h]
  | cons c n ih =>
    rw [List.forall_mem_cons] at hn
    have hdepth : depthAfter 0 '\n' = 0 := by decide
    rw [List.cons_append, hn.1, cutDefinition_cons, if_neg (by simp), hdepth, ih hn.2, Option.map_map]
    rfl

theorem exists_region (region : Text) : ∃ n w, (∀ c ∈ n, c = '\n') ∧ isBlank w = true ∧
    region = n ++ (bodyOf region ++ w) := by
  obtain ⟨n, k, hn, hk, hregion⟩ := exists_stripChar '\n' region
  obtain ⟨g, hg, hbody⟩ := exists_rstrip (stripChar '\n' region)
  refine ⟨n, g ++ k, hn, ?_, ?_⟩
  · rw [isBlank_append, hg, Bool.true_and, isBlank_iff]
    intro c hc
    rw [hk c hc]
    decide
  · conv_lhs => rw [hregion, hbody]
    rw [List.append_assoc]
    rfl

theorem quiet_blank (h : isBlank u = true) : ∀ c ∈ u, c ≠ ':' ∧ c ≠ '=' := by
  intro c hc
  have hspace := isBlank_iff.mp h c hc
  constructor
  · intro he
    rw [he] at hspace
    exact absurd hspace (by decide)
  · intro he
    rw [he] at hspace
    exact absurd hspace (by decide)

theorem bodyOf_eq (t : Text) : bodyOf t = rstrip (t.dropWhile (· == '\n')) := by
  have hstrip : t.dropWhile (· == '\n') =
      stripChar '\n' t ++ ((t.dropWhile (· == '\n')).reverse.takeWhile (· == '\n')).reverse := by
    rw [stripChar, ← List.reverse_append, List.takeWhile_append_dropWhile, List.reverse_reverse]
  rw [bodyOf, hstrip, rstrip_append_blank]
  rw [isBlank_iff]
  intro c hc
  have hnewline : c = '\n' := by simpa using List.mem_takeWhile_imp (List.mem_reverse.mp hc)
  rw [hnewline]
  decide

theorem bodyOf_append_blank (h : isBlank u = true) (t : Text) : bodyOf (t ++ u) = bodyOf t := by
  rw [bodyOf_eq, bodyOf_eq, List.dropWhile_append]
  split
  · rename_i hall
    have hblank : isBlank (u.dropWhile (· == '\n')) = true :=
      isBlank_iff.mpr fun c hc => isBlank_iff.mp h c ((List.dropWhile_suffix _).subset hc)
    rw [List.isEmpty_iff.mp hall]
    exact rstrip_append_blank (t := []) hblank
  · exact rstrip_append_blank h

theorem trimDanglingComment_mark (t : Text) :
    trimDanglingComment (t ++ "-- ".toList) = trimmed (t.dropWhile (· == '\n')) := by
  have hdrop : (t ++ "-- ".toList).dropWhile (· == '\n') = t.dropWhile (· == '\n') ++ "-- ".toList := by
    rw [List.dropWhile_append]
    split
    · rename_i hall
      rw [List.isEmpty_iff.mp hall]
      rfl
    · rfl
  have hbody : bodyOf (t ++ "-- ".toList) = t.dropWhile (· == '\n') ++ "--".toList := by
    have hsplit : t.dropWhile (· == '\n') ++ "-- ".toList =
        t.dropWhile (· == '\n') ++ ['-'] ++ ['-'] ++ [' '] := by simp
    rw [bodyOf_eq, hdrop, hsplit, rstrip_append_blank (by decide), rstrip_of_ink (by decide)]
    simp
  have htrim : trimDanglingComment (t ++ "-- ".toList) =
      rstrip (join ['\n'] (dropOpeners (splitlines (bodyOf (t ++ "-- ".toList))))) := rfl
  rw [htrim, hbody]
  rfl

theorem ink_bodyOf (t : Text) : ink (bodyOf t) = ink t := by
  obtain ⟨n, w, hn, hw, ht⟩ := exists_region t
  have hblank : isBlank n = true := isBlank_iff.mpr fun c hc => by
    rw [hn c hc]
    decide
  conv_rhs => rw [ht, ink_append, ink_append, ink_of_blank hw, ink_of_blank hblank]
  simp

theorem length_trimDanglingComment (t : Text) : (ink (trimDanglingComment t)).length ≤ (ink t).length := by
  obtain ⟨openers, hsplit, _⟩ := exists_dropOpeners (splitlines (bodyOf t))
  have hbody : ink (bodyOf t) = (dropOpeners (splitlines (bodyOf t))).flatMap ink ++ openers.flatMap ink := by
    rw [← List.flatMap_append, ← hsplit, ink_splitlines]
  have htrim : trimDanglingComment t = rstrip (join ['\n'] (dropOpeners (splitlines (bodyOf t)))) := rfl
  rw [htrim, ink_rstrip, ink_join, ← ink_bodyOf t, hbody, List.length_append]
  omega

theorem proofBody_eq (candidate : Text) : proofBody candidate = (cutDefinition 0 (editRegion candidate)).bind fun p =>
    if trimDanglingComment p.2 = [] then none else some (trimDanglingComment p.2) := by
  rw [proofBody]
  cases cutDefinition 0 (editRegion candidate) with
  | none => rfl
  | some p => rfl

theorem cutDefinition_region (region : Text) : ∃ n w, isBlank w = true ∧
    (cutDefinition 0 (bodyOf region) = none → cutDefinition 0 region = none) ∧
    ∀ x a, cutDefinition 0 (bodyOf region) = some (x, a) → cutDefinition 0 region = some (n ++ x, a ++ w) := by
  obtain ⟨n, w, hn, hw, hregion⟩ := exists_region region
  refine ⟨n, w, hw, ?_, ?_⟩
  · intro hnone
    rw [hregion, cutDefinition_newlines hn, cutDefinition_of_none hnone (quiet_blank hw)]
    rfl
  · intro x a hcut
    conv_lhs => rw [hregion, cutDefinition_newlines hn, cutDefinition_append hcut]
    rfl

theorem agree_of_none (hbegins : contains regionBegin m.before = false)
    (hnone : cutDefinition 0 (bodyOf m.region) = none) : BodiesAgree m.text (bodyOf m.region) := by
  obtain ⟨_, _, _, hregion, _⟩ := cutDefinition_region m.region
  have henclosed : cutDefinition 0 (editRegion m.text) = none := by
    rw [editRegion_text hbegins]
    cases hcut : cut regionEnd m.region with
    | none =>
      rw [beforeEnd_free (by rw [contains, hcut]; rfl)]
      have hmark : "-- ".toList.all (fun c => c != ':' && c != '=') = true := by decide
      exact cutDefinition_of_none (hregion hnone) fun c hc => by simpa using List.all_eq_true.mp hmark c hc
    | some p =>
      rw [beforeEnd_cut hcut]
      have hall := hregion hnone
      rw [cut_eq hcut, List.append_assoc] at hall
      exact cutDefinition_prefix hall
  have hproof : proofBody m.text = none := by
    rw [proofBody_eq, henclosed]
    rfl
  refine ⟨⟨fun _ => hnone, fun _ => hproof⟩, ?_⟩
  intro signature after b hcut
  rw [hnone] at hcut
  cases hcut

theorem agree_iff_endsAlone {x a w : Text} (hbegins : contains regionBegin m.before = false)
    (hends : contains regionEnd m.region = false) (hw : isBlank w = true)
    (hbody : cutDefinition 0 (bodyOf m.region) = some (x, a)) {y : Text}
    (hregion : cutDefinition 0 m.region = some (y, a ++ w)) :
    BodiesAgree m.text (bodyOf m.region) ↔ EndsAlone ((a ++ w).dropWhile (· == '\n')) := by
  have hproof : proofBody m.text = if trimmed ((a ++ w).dropWhile (· == '\n')) = [] then none
      else some (trimmed ((a ++ w).dropWhile (· == '\n'))) := by
    rw [proofBody_eq, editRegion_text hbegins, beforeEnd_free hends, cutDefinition_append hregion,
      Option.bind_some, trimDanglingComment_mark]
  have hterm : bodyOf a = rstrip ((a ++ w).dropWhile (· == '\n')) := by
    rw [← bodyOf_append_blank hw a, bodyOf_eq]
  rw [← sameTerm_iff, ← hterm]
  constructor
  · intro h
    have hsome : trimmed ((a ++ w).dropWhile (· == '\n')) ≠ [] := by
      intro hnil
      rw [if_pos hnil] at hproof
      have hnone := h.1.mp hproof
      rw [hbody] at hnone
      cases hnone
    rw [if_neg hsome] at hproof
    exact ⟨hsome, h.2 x a _ hbody hproof⟩
  · intro h
    rw [if_neg h.1] at hproof
    constructor
    · rw [hproof, hbody]
      simp
    · intro signature after b hcut hb
      rw [hbody] at hcut
      rw [hproof] at hb
      obtain ⟨rfl, rfl⟩ := Prod.mk.inj (Option.some.inj hcut)
      rw [← Option.some.inj hb]
      exact h.2

theorem not_agree_of_word {x a w y z e : Text} (hbegins : contains regionBegin m.before = false)
    (hcut : cut regionEnd m.region = some (y, z)) (hw : isBlank w = true)
    (hbody : cutDefinition 0 (bodyOf m.region) = some (x, a))
    (hregion : cutDefinition 0 m.region = some (e, a ++ w)) : ¬ BodiesAgree m.text (bodyOf m.region) := by
  intro h
  have henclosed : editRegion m.text = y := by rw [editRegion_text hbegins, beforeEnd_cut hcut]
  cases hy : cutDefinition 0 y with
  | none =>
    have hproof : proofBody m.text = none := by
      rw [proofBody_eq, henclosed, hy]
      rfl
    have hnone := h.1.mp hproof
    rw [hbody] at hnone
    cases hnone
  | some p =>
    have hall := cutDefinition_append hy (regionEnd ++ z)
    rw [← List.append_assoc, ← cut_eq hcut, hregion] at hall
    have hafter : a ++ w = p.2 ++ (regionEnd ++ z) := (Prod.mk.inj (Option.some.inj hall)).2
    cases hproof : proofBody m.text with
    | none =>
      have hnone := h.1.mp hproof
      rw [hbody] at hnone
      cases hnone
    | some b =>
      have hsame := (h.2 x a b hbody hproof).length.1
      have hb : b = trimDanglingComment p.2 := by
        rw [proofBody_eq, henclosed, hy, Option.bind_some] at hproof
        split at hproof
        · cases hproof
        · exact (Option.some.inj hproof).symm
      have hword : (ink regionEnd).length = 15 := by decide
      have hink := congrArg (fun t => (ink t).length) hafter
      simp only [ink_append, ink_of_blank hw, List.append_nil, List.length_append, hword] at hink
      have htrim := length_trimDanglingComment p.2
      rw [ink_bodyOf, hb] at hsame
      omega

/-- The two bodies agree where the marker words stand only in the marks and the end mark
stands on a line of its own behind the term, with one dangling opener at most; where the
begin word stands only in its mark, nowhere else. -/
theorem bodies_agree {sha256 repr : Text → Text} {text preamble root namePrefix : Text} {envelope : SourceEnvelope}
    (h : splitSource sha256 repr text preamble root namePrefix = .ok envelope) :
    ∃ m, findMarks (strip preamble) text = .ok m ∧ text = m.text ∧
      (ReadsAlike m → BodiesAgree text envelope.body) ∧
      (contains regionBegin m.before = false → BodiesAgree text envelope.body → ReadsAlike m) := by
  obtain ⟨m, hm, henvelope⟩ := splitSource_body h
  have htext := findMarks_text hm
  refine ⟨m, hm, htext, ?_, ?_⟩
  · intro hreads
    rw [htext, henvelope]
    obtain ⟨n, w, hw, _, hsome⟩ := cutDefinition_region m.region
    cases hbody : cutDefinition 0 (bodyOf m.region) with
    | none => exact agree_of_none hreads.begins hbody
    | some p =>
      have hregion := hsome p.1 p.2 hbody
      have hends := hreads.ends _ _ hregion
      exact (agree_iff_endsAlone hreads.begins hends.1 hw hbody hregion).mpr hends.2
  · intro hbegins hagree
    rw [htext, henvelope] at hagree
    obtain ⟨n, w, hw, hnone, hsome⟩ := cutDefinition_region m.region
    refine ⟨hbegins, ?_⟩
    intro signature after hregion
    cases hbody : cutDefinition 0 (bodyOf m.region) with
    | none =>
      rw [hnone hbody] at hregion
      cases hregion
    | some p =>
      have hcut := hsome p.1 p.2 hbody
      rw [hcut] at hregion
      obtain ⟨-, rfl⟩ := Prod.mk.inj (Option.some.inj hregion)
      cases hword : cut regionEnd m.region with
      | some q => exact absurd hagree (not_agree_of_word hbegins hword hw hbody hcut)
      | none =>
        have hends : contains regionEnd m.region = false := by
          rw [contains, hword]
          rfl
        exact ⟨hends, (agree_iff_endsAlone hbegins hends hw hbody hcut).mp hagree⟩

theorem layout_commented : Layout " by -- - /\n  sorry\n".toList " by -- - /\n  sorry\n".toList [] [] where
  text := by decide
  keptEnded := by
    have hlast : " by -- - /\n  sorry\n".toList.getLast? = some '\n' := by decide
    intro c hc
    rw [hlast] at hc
    rw [← Option.some.inj hc]
    decide
  ink := by decide
  last := by decide
  newlines := by
    have hall : (rstrip " by -- - /\n  sorry\n".toList).all (fun c => !isLineBreak c || c == '\n') = true := by
      decide
    intro c hc hbreak
    have hnewline := List.all_eq_true.mp hall c hc
    simpa [hbreak] using hnewline
  openerEnded := by simp [EndsLine]
  dangling := by simp
  single := by simp
  blank := rfl
  unbroken := by simp

theorem bodies_agree_commented : ∃ envelope,
    splitSource id id commentedFile "import A".toList ['a'] = .ok envelope ∧ BodiesAgree commentedFile envelope.body := by
  have hread : findMarks (strip "import A".toList) commentedFile = .ok commentedMarks := by decide +kernel
  have hcut : cutDefinition 0 commentedMarks.region =
      some ("\ntheorem a : P ".toList, " by -- - /\n  sorry\n".toList) := by decide
  cases hsplit : splitSource id id commentedFile "import A".toList ['a'] with
  | error fault =>
    have hok : (splitSource id id commentedFile "import A".toList ['a']).toBool = true := by decide +kernel
    rw [hsplit] at hok
    cases hok
  | ok envelope =>
    obtain ⟨m, hm, _, hagree, _⟩ := bodies_agree hsplit
    rw [hread] at hm
    injection hm with hm
    refine ⟨envelope, rfl, hagree ?_⟩
    rw [← hm]
    refine ⟨by decide, ?_⟩
    intro signature after hsome
    rw [hcut] at hsome
    obtain ⟨-, rfl⟩ := Prod.mk.inj (Option.some.inj hsome)
    exact ⟨by decide, _, _, _, layout_commented⟩

def namedMarkFile : Text :=
  "-- EDIT-REGION-BEGIN\ntheorem a : P := by\n  -- up to EDIT-REGION-END\n  trivial\n-- EDIT-REGION-END".toList

theorem named_mark_ends_body : ¬ ∀ (sha256 repr : Text → Text) (text preamble root namePrefix : Text)
    (envelope : SourceEnvelope), splitSource sha256 repr text preamble root namePrefix = .ok envelope →
      BodiesAgree text envelope.body := by
  intro hclaim
  have hagree := hclaim id id namedMarkFile [] ['a'] []
  cases hsplit : splitSource id id namedMarkFile [] ['a'] with
  | error fault =>
    have hok : (splitSource id id namedMarkFile [] ['a']).toBool = true := by decide +kernel
    rw [hsplit] at hok
    cases hok
  | ok envelope =>
    have hbody : (splitSource id id namedMarkFile [] ['a']).toOption.map SourceEnvelope.body =
        some "theorem a : P := by\n  -- up to EDIT-REGION-END\n  trivial".toList := by decide +kernel
    have hproof : proofBody namedMarkFile = some " by\n  -- up to".toList := by decide
    have hcut : cutDefinition 0 "theorem a : P := by\n  -- up to EDIT-REGION-END\n  trivial".toList =
        some ("theorem a : P ".toList, " by\n  -- up to EDIT-REGION-END\n  trivial".toList) := by decide
    rw [hsplit] at hbody
    have hboth := hagree envelope hsplit
    rw [show envelope.body = _ from Option.some.inj hbody] at hboth
    have hlength := (hboth.2 _ _ _ hcut hproof).length.1
    revert hlength
    decide

end EvoHarness.Proof.Envelope
