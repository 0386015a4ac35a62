import EvoHarness.Spelling
import EvoHarness.Ancestors

/-! When a signature that restates a goal under another keyword and name, with other
spacing, gets the goal's identity, and so is refused below it. -/
namespace EvoHarness.Proof
open PyText

def glue (g h : Text) : Text :=
  (if g = [] then [] else [' ']) ++ ':' :: (if h = [] then [] else [' '])

theorem glue_eq_iff {g h : Text} : glue g h = glue [' '] [' '] ↔ g ≠ [] ∧ h ≠ [] := by
  by_cases hg : g = [] <;> by_cases hh : h = [] <;> simp [glue, hg, hh]

variable {t u x y a b g h : Text}

theorem squeeze_forall (ha : isBlank a = false) (hb : isBlank b = false) :
    squeeze ("∀ ".toList ++ strip a ++ ", ".toList ++ strip b) =
      "∀ ".toList ++ squeeze a ++ ", ".toList ++ squeeze b := by
  have hane : strip a ≠ [] := fun h => by simp [strip_eq_nil.mp h] at ha
  have hbne : strip b ≠ [] := fun h => by simp [strip_eq_nil.mp h] at hb
  have hat := trimmed_strip a
  have hbt := trimmed_strip b
  have htrim : Trimmed ("∀ ".toList ++ strip a ++ ", ".toList ++ strip b) := by
    refine ⟨fun c hc => ?_, fun c hc => hbt.2 c ?_⟩
    · obtain rfl : '∀' = c := by simpa using hc
      decide
    · rwa [List.getLast?_append_of_ne_nil _ hbne] at hc
  rw [squeeze_of_trimmed htrim, ← squeeze_strip (t := a), ← squeeze_strip (t := b),
    squeeze_of_trimmed hat, squeeze_of_trimmed hbt, List.append_assoc, List.append_assoc,
    collapse_append, collapse_append, collapse_append, openRun_trimmed hat hane]
  have hall : collapse false "∀ ".toList = ['∀'] ∧ openRun false "∀ ".toList = true := by decide
  have hcomma : collapse false ", ".toList = [','] ∧ openRun false ", ".toList = true := by decide
  rw [hall.1, hall.2, hcomma.1, hcomma.2, collapse_true hat.1 hane, collapse_true hbt.1 hbne]
  simp

theorem not_isBlank_of_last (hx : ∀ c, x.getLast? = some c → isSpace c = false) (hne : x ≠ []) :
    isBlank x = false := by
  obtain ⟨c, hc⟩ := Option.ne_none_iff_exists'.mp (mt List.getLast?_eq_none_iff.mp hne)
  refine Bool.eq_false_iff.mpr fun hb => ?_
  have := isBlank_iff.mp hb c (List.mem_of_getLast? hc)
  simp [hx c hc] at this

theorem squeeze_glue (hx : ∀ c, x.getLast? = some c → isSpace c = false) (hxne : x ≠ [])
    (hy : ∀ c, y.head? = some c → isSpace c = false) (hyne : y ≠ []) (hg : isBlank g = true)
    (hh : isBlank h = true) :
    squeeze (x ++ g ++ ':' :: (h ++ y)) = squeeze x ++ glue g h ++ collapse false y := by
  obtain ⟨c, hc⟩ := Option.ne_none_iff_exists'.mp (mt List.getLast?_eq_none_iff.mp hxne)
  have hxb : isBlank x = false := not_isBlank_of_last hx hxne
  have hrun : openRun false (lstrip x) = false := by
    obtain ⟨p, hp, hxp⟩ := exists_lstrip x
    have : openRun false (p ++ lstrip x) = openRun (!p.isEmpty) (lstrip x) := by
      rw [openRun_append, openRun_of_blank hp]
      rfl
    have hne : lstrip x ≠ [] := by
      intro hnil
      rw [hnil, List.append_nil] at hxp
      simp [hxp ▸ hp] at hxb
    rw [openRun_last (c := c), hx c hc]
    rw [hxp, List.getLast?_append_of_ne_nil _ hne] at hc
    exact hc
  have hcolon : isSpace ':' = false := by decide
  rw [squeeze_eq, squeeze_eq, List.append_assoc, lstrip_append hxb, collapse_append, hrun,
    collapse_append, collapse_of_blank hg, openRun_of_blank hg, List.nil_append, collapse_ink hcolon,
    collapse_append, collapse_of_blank hh, openRun_of_blank hh, List.nil_append]
  cases g <;> cases h <;> simp [glue, collapse_true hy hyne]

/-- Where the scan does not stop at the colon after the binders, the white space around
that colon is kept, as single blanks. -/
theorem squeeze_unbalanced (hat : Trimmed a) (hane : a ≠ []) (halast : a.getLast? ≠ some ':')
    (hbt : Trimmed b) (hbne : b ≠ []) (hbhead : b.head? ≠ some ':') (hblast : b.getLast? ≠ some ':')
    (hbal : ¬Balanced ':' a) :
    ∃ pre post, ∀ g h, isBlank g = true → isBlank h = true →
      squeeze (propositionOf (a ++ g ++ ':' :: (h ++ b))) = pre ++ glue g h ++ post := by
  -- a text cut at a colon ends with a part that is not empty, unless the colon is its last character
  have cut_last : ∀ x : Text, Trimmed x → x.getLast? ≠ some ':' → ∀ p q, x = p ++ ':' :: q →
      q ≠ [] ∧ ∀ c, q.getLast? = some c → isSpace c = false := by
    intro x hxt hxl p q hx
    have hq : q ≠ [] := by
      rintro rfl
      simp [hx] at hxl
    refine ⟨hq, fun c hc => hxt.2 c ?_⟩
    rw [hx, List.getLast?_append_of_ne_nil _ (by simp), List.getLast?_cons_of_ne_nil hq, hc]
  have hcolon : isSpace ':' = false := by decide
  rcases cutTopLevel_cases ':' 0 a with ⟨p, q, hcut, ha, hp⟩ | ⟨_, e, he⟩
  · obtain ⟨hq, hqlast⟩ := cut_last a hat halast p q ha
    refine ⟨if isBlank p then squeeze q else "∀ ".toList ++ squeeze p ++ ", ".toList ++ squeeze q,
      collapse false b, fun g h hg hh => ?_⟩
    have hcut' : cutTopLevel ':' 0 (a ++ g ++ ':' :: (h ++ b)) = some (p, q ++ g ++ ':' :: (h ++ b)) := by
      rw [ha, show p ++ ':' :: q ++ g ++ ':' :: (h ++ b) = p ++ ':' :: (q ++ g ++ ':' :: (h ++ b)) by simp]
      exact cutTopLevel_mark isMark_colon hp
    have hpost : isBlank (q ++ g ++ ':' :: (h ++ b)) = false := by
      simp [isBlank_append, isBlank_cons, hcolon]
    rw [propositionOf_cut hcut', hpost, if_neg (by simp)]
    have hglue := squeeze_glue hqlast hq hbt.1 hbne hg hh
    cases hpb : isBlank p
    · rw [if_neg (by simp), squeeze_forall hpb hpost, hglue, if_neg (by simp)]
      simp
    · rw [if_pos rfl, squeeze_strip, hglue, if_pos rfl]
  · have he0 : e ≠ 0 := by
      rintro rfl
      exact hbal he
    have hdepth : ∀ g h, isBlank g = true → isBlank h = true →
        depthAfter ':' 0 (a ++ g ++ ':' :: h) = some e := by
      intro g h hg hh
      rw [depthAfter_append, depthAfter_append, he, Option.bind_some,
        depthAfter_blank isMark_colon hg, Option.bind_some]
      have hstep : depthAfter ':' e (':' :: h) = depthAfter ':' e h := by
        have := isMark_colon
        simp [depthAfter, this.1, this.2.1, he0]
      rw [hstep, depthAfter_blank isMark_colon hh]
    have hsplit : ∀ g h, a ++ g ++ ':' :: (h ++ b) = (a ++ g ++ ':' :: h) ++ b := by simp
    rcases cutTopLevel_cases ':' e b with ⟨p, q, hcut, hb, hp⟩ | ⟨hcut, _⟩
    · obtain ⟨hq, hqlast⟩ := cut_last b hbt hblast p q hb
      have hpne : p ≠ [] := by
        rintro rfl
        simp [hb] at hbhead
      have hphead : ∀ c, p.head? = some c → isSpace c = false := by
        intro c hc
        refine hbt.1 c ?_
        rw [hb, List.head?_append_of_ne_nil _ hpne, hc]
      refine ⟨"∀ ".toList ++ squeeze a, collapse false p ++ ", ".toList ++ squeeze q, fun g h hg hh => ?_⟩
      have hcut' : cutTopLevel ':' 0 (a ++ g ++ ':' :: (h ++ b)) = some (a ++ g ++ ':' :: (h ++ p), q) := by
        rw [hsplit, cutTopLevel_append (hdepth g h hg hh), hcut, Option.map_some]
        simp
      have hpre : isBlank (a ++ g ++ ':' :: (h ++ p)) = false := by
        simp [isBlank_append, isBlank_cons, hcolon]
      rw [propositionOf_cut hcut', not_isBlank_of_last hqlast hq, if_neg (by simp), hpre,
        if_neg (by simp), squeeze_forall hpre (not_isBlank_of_last hqlast hq),
        squeeze_glue hat.2 hane hphead hpne hg hh]
      simp
    · refine ⟨squeeze a, collapse false b, fun g h hg hh => ?_⟩
      have hcut' : cutTopLevel ':' 0 (a ++ g ++ ':' :: (h ++ b)) = none := by
        rw [hsplit, cutTopLevel_append (hdepth g h hg hh), hcut]
        rfl
      rw [propositionOf_raw hcut', squeeze_strip, squeeze_glue hat.2 hane hbt.1 hbne hg hh]

namespace Signature

variable (s : Signature) {kw n : Text}

theorem respell_text (hkw : kw ≠ [] ∧ NoSpace kw) (hn : LegalName n) : (s.respell kw n hkw hn).text = canonical kw n s.binders s.conclusion := by
  by_cases hb : s.binders = [] <;> simp [text, rest, respell, canonical, hb]

def SetOff : Prop :=
  s.KeywordSeen ∧
    ((s.binders ≠ [] ∧ s.binderGap ≠ [] ∧
        (Balanced ':' s.binders ∨ (s.colonGap ≠ [] ∧ s.conclusionGap ≠ []))) ∨
      (s.binders = [] ∧ (s.binderGap ++ s.colonGap ≠ [] ∨
        (s.conclusionGap ≠ [] ∧ cutTopLevel ':' 0 s.conclusion = none))))

/-- The white space after the name that stands there: before the binders, or before the colon. -/
def Apart : Prop := s.binderGap ≠ [] ∨ (s.binders = [] ∧ s.colonGap ≠ [])

theorem proposition_bare (h : s.KeywordSeen) (hb : s.binders = []) (ha : s.Apart) :
    proposition s.text = s.conclusion := by
  rw [s.proposition_text h, s.afterWord_set ha, hb, if_pos rfl, List.nil_append, List.nil_append]
  exact propositionOf_bare s.conclusion_trimmed s.conclusion_ne s.conclusionGap_blank

theorem proposition_binders (h : s.KeywordSeen) (hb : s.binders ≠ []) (ha : s.Apart) :
    proposition s.text = propositionOf (s.binders ++ s.colonGap ++ ':' :: (s.conclusionGap ++ s.conclusion)) := by
  rw [s.proposition_text h, s.afterWord_set ha, if_neg hb]

theorem respell_bare (hkw : kw ∈ keywords) (hn : LegalName n) (hb : s.binders = []) :
    proposition (canonical kw n s.binders s.conclusion) = s.conclusion := by
  rw [← s.respell_text (keyword_word_of_mem hkw) hn]
  exact (s.respell kw n (keyword_word_of_mem hkw) hn).proposition_bare ⟨hkw, rfl⟩ hb (Or.inl (by simp [respell]))

theorem respell_binders (hkw : kw ∈ keywords) (hn : LegalName n) (hb : s.binders ≠ []) :
    proposition (canonical kw n s.binders s.conclusion) =
      propositionOf (s.binders ++ [' '] ++ ':' :: ([' '] ++ s.conclusion)) := by
  rw [← s.respell_text (keyword_word_of_mem hkw) hn, (s.respell kw n (keyword_word_of_mem hkw) hn).proposition_binders ⟨hkw, rfl⟩ hb
    (Or.inl (by simp [respell]))]
  simp [respell, hb]

theorem ink_colon (t : Text) : ink (':' :: t) = ':' :: ink t := rfl

theorem ink_rest : ink s.rest = ink s.binders ++ ':' :: ink s.conclusion := by
  simp only [rest, ink_append, ink_colon, ink_of_blank s.binderGap_blank, ink_of_blank s.colonGap_blank,
    ink_of_blank s.conclusionGap_blank, List.nil_append, List.append_nil]

theorem ink_conclusion : ink s.conclusion ≠ [] := by
  rw [Ne, ink_eq_nil, not_isBlank_of_trimmed s.conclusion_trimmed s.conclusion_ne]
  simp

theorem ink_canonical (hkw : kw ∈ keywords) (hn : LegalName n) :
    ink (proposition (canonical kw n s.binders s.conclusion)) = inkProposition (ink s.rest) := by
  by_cases hb : s.binders = []
  · rw [s.respell_bare hkw hn hb, s.ink_rest, hb]
    have hcut := cutTopLevel_mark (a := []) (b := ink s.conclusion) (d := 0) isMark_colon rfl
    unfold inkProposition
    rw [show ink [] = [] from rfl, hcut]
    simp [s.ink_conclusion]
  · rw [s.respell_binders hkw hn hb, ink_propositionOf, s.ink_rest, ink_append, ink_append, ink_colon,
      ink_append]
    simp [ink_of_blank (g := [' ']) (by decide)]

theorem head_rest_glued (hne : s.binders ≠ []) (hb : s.binderGap = []) {c : Char}
    (hc : s.rest.head? = some c) : isSpace c = false := by
  refine s.binders_trimmed.1 c ?_
  rwa [rest, hb, List.nil_append, List.append_assoc, List.head?_append_of_ne_nil _ hne] at hc

theorem squeeze_bare_iff (h : s.KeywordSeen) (hb : s.binders = []) (ha : ¬s.Apart) :
    squeeze (proposition s.text) = squeeze s.conclusion ↔
      s.conclusionGap ≠ [] ∧ cutTopLevel ':' 0 s.conclusion = none := by
  simp only [Apart, not_or, not_and, ne_eq, not_not] at ha
  let word := s.name ++ [':']
  have hword : ∀ c ∈ word, isSpace c = false := by
    intro c hc
    rcases List.mem_append.mp hc with hc | hc
    · exact s.name_ink c hc
    · exact List.mem_singleton.mp hc ▸ by decide
  have hrest : s.name ++ s.rest = word ++ (s.conclusionGap ++ s.conclusion) := by
    simp [rest, word, hb, ha.1, ha.2 hb]
  rw [s.proposition_text h, hrest]
  by_cases hcg : s.conclusionGap = []
  · -- the first word of the conclusion goes with the name
    refine iff_of_false (fun heq => ?_) fun h => h.1 hcg
    rw [hcg, List.nil_append] at heq
    obtain ⟨v, hv, hink⟩ := afterWord_glued hword (by simp [word]) s.conclusion_ne s.conclusion_trimmed.1
    have heq := congrArg ink heq
    rw [ink_squeeze, ink_squeeze, ink_propositionOf, hink] at heq
    exact inkProposition_ne_append hv heq
  · have hafter : afterWord (word ++ (s.conclusionGap ++ s.conclusion)) = s.conclusion := by
      rw [afterWord_append hword (by simp [word]) fun c hc => ?_,
        lstrip_append_of_blank s.conclusionGap_blank, lstrip_of_head s.conclusion_trimmed.1]
      rw [List.head?_append_of_ne_nil _ hcg] at hc
      exact head?_of_isBlank s.conclusionGap_blank hc
    rw [hafter]
    cases hcut : cutTopLevel ':' 0 s.conclusion with
    | none =>
      rw [propositionOf_raw hcut, squeeze_strip]
      exact iff_of_true rfl ⟨hcg, rfl⟩
    | some p =>
      -- a colon of the conclusion is taken for the one before it
      refine iff_of_false (fun heq => ?_) fun h => by simp at h
      obtain ⟨a, b⟩ := p
      have hx : s.conclusion = a ++ ':' :: b := by
        rcases cutTopLevel_cases ':' 0 s.conclusion with ⟨a', b', h, hx, _⟩ | ⟨h, _⟩
        · obtain ⟨rfl, rfl⟩ := Prod.mk.inj (Option.some.inj (hcut.symm.trans h))
          exact hx
        · simp [hcut] at h
      have ha : isBlank a = false := by
        have hne : a ≠ [] := by
          rintro rfl
          exact s.conclusion_edges.1 (by simp [hx])
        cases a with
        | nil => exact absurd rfl hne
        | cons c a => simp [isBlank_cons, s.conclusion_trimmed.1 c (by simp [hx])]
      have hb : isBlank b = false := by
        have hne : b ≠ [] := by
          rintro rfl
          exact s.conclusion_edges.2 (by simp [hx])
        refine not_isBlank_of_last (fun c hc => s.conclusion_trimmed.2 c ?_) hne
        rw [hx, List.getLast?_append_of_ne_nil _ (by simp), List.getLast?_cons_of_ne_nil hne, hc]
      have heq := congrArg ink heq
      rw [ink_squeeze, ink_squeeze, propositionOf_cut hcut, ha, hb] at heq
      have heq := congrArg List.length heq
      simp only [Bool.false_eq_true, if_false, ink_append, ink_strip, List.length_append] at heq
      rw [hx, ink_append, ink_colon, List.length_append, List.length_cons] at heq
      have hall : (ink "∀ ".toList).length = 1 := by decide
      have hcomma : (ink ", ".toList).length = 1 := by decide
      omega

/-- With binders after white space: their brackets balance, or the colon keeps its blanks. -/
theorem squeeze_binders_iff (h : s.KeywordSeen) (hb : s.binders ≠ []) (ha : s.Apart)
    (hkw : kw ∈ keywords) (hn : LegalName n) :
    squeeze (proposition s.text) = squeeze (proposition (canonical kw n s.binders s.conclusion)) ↔
      Balanced ':' s.binders ∨ (s.colonGap ≠ [] ∧ s.conclusionGap ≠ []) := by
  rw [s.proposition_binders h hb ha, s.respell_binders hkw hn hb]
  by_cases hbal : Balanced ':' s.binders
  · rw [propositionOf_balanced hbal s.binders_trimmed hb s.conclusion_trimmed s.conclusion_ne
      s.colonGap_blank s.conclusionGap_blank, propositionOf_balanced hbal s.binders_trimmed hb
      s.conclusion_trimmed s.conclusion_ne (by decide) (by decide)]
    exact iff_of_true rfl (Or.inl hbal)
  · obtain ⟨pre, post, hsq⟩ := squeeze_unbalanced s.binders_trimmed hb s.binders_last
      s.conclusion_trimmed s.conclusion_ne s.conclusion_edges.1 s.conclusion_edges.2 hbal
    rw [hsq _ _ s.colonGap_blank s.conclusionGap_blank, hsq [' '] [' '] (by decide) (by decide)]
    simp only [List.append_cancel_right_eq, List.append_cancel_left_eq, glue_eq_iff, hbal, false_or]

theorem squeeze_glued_ne (h : s.KeywordSeen) (hb : s.binders ≠ []) (hg : s.binderGap = [])
    (hkw : kw ∈ keywords) (hn : LegalName n) :
    squeeze (proposition s.text) ≠ squeeze (proposition (canonical kw n s.binders s.conclusion)) := by
  intro heq
  have heq := congrArg ink heq
  rw [ink_squeeze, ink_squeeze, s.ink_canonical hkw hn, s.proposition_text h, ink_propositionOf] at heq
  obtain ⟨v, hv, hink⟩ := afterWord_glued s.name_ink s.name_legal.1 (by simp [rest])
    fun c hc => s.head_rest_glued hb hg hc
  set y := ink (afterWord (s.name ++ s.rest))
  have hpos : 0 < v.length := List.length_pos_iff.mpr hv
  rw [hink] at heq
  rcases inkProposition_cases (v ++ y) with hx | ⟨b, hx, _⟩ | ⟨a, b, hx, hp⟩
  · exact inkProposition_ne_append hv (heq.trans hx)
  · -- glued binders begin with a bracket, not with a colon
    obtain ⟨c, hc, hhead⟩ := List.mem_map.mp (s.binders_set hb hg)
    replace hhead := hhead.symm
    obtain ⟨t, ht⟩ := List.head?_eq_some_iff.mp hhead
    have hink' := s.ink_rest.symm.trans (hink.trans hx)
    have hcink : isSpace c = false := s.binders_trimmed.1 c hhead
    simp only [ht, ink, List.filter_cons, hcink, Bool.not_false, if_true, List.cons_append,
      List.cons.injEq] at hink'
    exact absurd (hink'.1 ▸ hc) (by decide)
  · have hlen := congrArg List.length heq
    have hle := length_inkProposition_le y
    have hxlen := congrArg List.length hx
    rw [hp] at hlen
    simp only [List.length_append, List.length_cons] at hlen hxlen
    omega

/-- A restatement keeps the proposition, up to white space, exactly when it is set off. -/
theorem squeeze_restated_iff (hkw : kw ∈ keywords) (hn : LegalName n) :
    squeeze (proposition s.text) = squeeze (proposition (canonical kw n s.binders s.conclusion)) ↔
      s.SetOff := by
  by_cases hgap : s.KeywordSeen
  · by_cases hb : s.binders = []
    · rw [s.respell_bare hkw hn hb]
      by_cases ha : s.Apart
      · rw [s.proposition_bare hgap hb ha]
        refine iff_of_true rfl ⟨hgap, Or.inr ⟨hb, Or.inl ?_⟩⟩
        rcases ha with ha | ⟨_, ha⟩ <;> simp [ha]
      · rw [s.squeeze_bare_iff hgap hb ha]
        simp only [Apart, not_or, not_and, ne_eq, not_not] at ha
        simp [SetOff, hgap, hb, ha.1, ha.2 hb]
    · by_cases hg : s.binderGap = []
      · refine iff_of_false (s.squeeze_glued_ne hgap hb hg hkw hn) ?_
        simp [SetOff, hb, hg]
      · rw [s.squeeze_binders_iff hgap hb (Or.inl hg) hkw hn]
        simp [SetOff, hgap, hb, hg]
  · -- a keyword the hasher does not see takes the place of the name
    refine iff_of_false (fun heq => ?_) fun h => hgap h.1
    have heq := congrArg ink heq
    rw [ink_squeeze, ink_squeeze, s.ink_canonical hkw hn, s.proposition_text_of_not hgap,
      ink_propositionOf, ink_append] at heq
    have hname : ink s.name = s.name := List.filter_eq_self.mpr fun c hc => by simp [s.name_ink c hc]
    rw [hname] at heq
    exact inkProposition_name s.name_legal heq

theorem respell_rest (hkw : kw ≠ [] ∧ NoSpace kw) (hn : LegalName n) : ink (s.respell kw n hkw hn).rest = ink s.rest := by
  rw [ink_rest, ink_rest]
  rfl

/-- Under a keyword that the hasher does not know the name of a goal stays in its proposition. -/
theorem ink_canonical_of_not (hkw : kw ≠ [] ∧ NoSpace kw) (hn : LegalName n) (hno : kw ∉ keywords) :
    ink (proposition (canonical kw n s.binders s.conclusion)) = inkProposition (n ++ ink s.rest) := by
  have hname : ink n = n := List.filter_eq_self.mpr fun c hc => by simp [(hn.2 c hc).1]
  have hunseen : ¬(s.respell kw n hkw hn).KeywordSeen := fun hseen => hno hseen.1
  rw [← s.respell_text hkw hn, (s.respell kw n hkw hn).proposition_text_of_not hunseen, ink_propositionOf, ink_append,
    s.respell_rest hkw hn]
  show inkProposition (ink n ++ _) = _
  rw [hname]

theorem ink_proposition_apart (h : s.KeywordSeen) (ha : s.Apart) :
    ink (proposition s.text) = inkProposition (ink s.rest) := by
  have hkw : "theorem".toList ∈ keywords := by decide
  have hn : LegalName "x".toList := by decide
  rw [← s.ink_canonical hkw hn]
  by_cases hb : s.binders = []
  · rw [s.proposition_bare h hb ha, s.respell_bare hkw hn hb]
  · rw [s.proposition_binders h hb ha, s.respell_binders hkw hn hb, ink_propositionOf, ink_propositionOf]
    simp only [ink_append, ink_colon, ink_of_blank s.colonGap_blank, ink_of_blank s.conclusionGap_blank,
      ink_of_blank (g := [' ']) (by decide)]

/-- No restatement under another name has the proposition of a goal whose keyword the hasher does not know. -/
theorem squeeze_unknown_ne (hkw : kw ≠ [] ∧ NoSpace kw) (hn : LegalName n) (hno : kw ∉ keywords) (hother : s.name ≠ n) :
    squeeze (proposition s.text) ≠ squeeze (proposition (canonical kw n s.binders s.conclusion)) := by
  intro heq
  have heq := congrArg ink heq
  rw [ink_squeeze, ink_squeeze, s.ink_canonical_of_not hkw hn hno] at heq
  by_cases h : s.KeywordSeen
  · by_cases ha : s.Apart
    · rw [s.ink_proposition_apart h ha] at heq
      exact inkProposition_name hn heq.symm
    · -- what is glued to the name goes with it, and is missing
      have hhead : ∀ c, s.rest.head? = some c → isSpace c = false := by
        intro c hc
        simp only [Apart, not_or, not_and, ne_eq, not_not] at ha
        by_cases hb : s.binders = []
        · rw [rest, ha.1, hb, ha.2 hb] at hc
          cases hc
          decide
        · exact s.head_rest_glued hb ha.1 hc
      obtain ⟨v, hv, hink⟩ := afterWord_glued s.name_ink s.name_legal.1 (by simp [rest]) hhead
      rw [s.proposition_text h, ink_propositionOf] at heq
      obtain ⟨pre, post, hnamed, hlength⟩ := inkProposition_named (ink s.rest)
      rw [hnamed n hn] at heq
      have hshort := length_inkProposition_le (ink (afterWord (s.name ++ s.rest)))
      have hlong := congrArg List.length hink
      have hpos : 0 < v.length := List.length_pos_iff.mpr hv
      have hname : 0 < n.length := List.length_pos_iff.mpr hn.1
      have hsame := congrArg List.length heq
      simp only [List.length_append] at hlong hsame
      omega
  · have hname : ink s.name = s.name := List.filter_eq_self.mpr fun c hc => by simp [s.name_ink c hc]
    rw [s.proposition_text_of_not h, ink_propositionOf, ink_append, hname] at heq
    obtain ⟨pre, post, hnamed, -⟩ := inkProposition_named (ink s.rest)
    rw [hnamed n hn, hnamed s.name s.name_legal] at heq
    exact hother (List.append_cancel_left (List.append_cancel_right heq))

end Signature

/-- The keyword and the name that a goal is stated under. -/
structure Head where
  keyword : Text
  name : Text
  keyword_word : keyword ≠ [] ∧ NoSpace keyword := by decide
  name_legal : LegalName name := by decide

/-- Restating a goal under a fresh name is refused below it exactly when the goal's keyword is one that the hasher knows
and the restatement is set off: the identity is the goal's, and with it comes the cycle. -/
theorem restated_refused_iff {sha256 : Text → Text} (hsha : Function.Injective sha256) (goal : Head) (sub : Signature)
    (hother : goal.keyword ∈ keywords ∨ sub.name ≠ goal.name) :
    (exactText sha256 sub.text = exactText sha256 (canonical goal.keyword goal.name sub.binders sub.conclusion) ∧
      ∀ (s : Store) (j goalId : GoalId) (g : Goal), s.goal j = some g →
        g.statement = canonical goal.keyword goal.name sub.binders sub.conclusion →
        g.identity = exactText sha256 g.statement →
        Relation.ReflTransGen s.Sub j goalId → ∀ (ps : List (Text × Text)) (sketch : Option Sketch),
          (exactText sha256 sub.text, sub.text) ∈ ps →
          ∃ m, s.addDecomposition goalId ps sketch = .error (.cycleError m)) ↔
      goal.keyword ∈ keywords ∧ sub.SetOff := by
  have hidentity : exactText sha256 sub.text =
      exactText sha256 (canonical goal.keyword goal.name sub.binders sub.conclusion) ↔
        goal.keyword ∈ keywords ∧ sub.SetOff := by
    rw [exactText_inj hsha]
    by_cases hkw : goal.keyword ∈ keywords
    · rw [sub.squeeze_restated_iff hkw goal.name_legal]
      exact (and_iff_right hkw).symm
    · refine iff_of_false ?_ fun h => hkw h.1
      exact sub.squeeze_unknown_ne goal.keyword_word goal.name_legal hkw (hother.resolve_left hkw)
  rw [hidentity]
  refine ⟨fun h => h.1, fun h => ⟨h, ?_⟩⟩
  intro s j goalId g hg hst hid hj ps sketch hp
  have hgoal : goalId < s.goals.length := by
    rcases Relation.ReflTransGen.cases_tail hj with rfl | ⟨k, _, hk⟩
    · exact Store.goal_lt hg
    · exact hk.right_lt
  refine Store.addDecomposition_cycle hp hj hgoal ?_
  rw [Store.identityOf_goal hg, hid, hst]
  exact (hidentity.mpr h).symm

theorem theorem_word : "theorem".toList ≠ [] ∧ NoSpace "theorem".toList := by decide

theorem foo_legal : LegalName "foo".toList := by decide

def fooGoal : Head := ⟨"theorem".toList, "foo".toList, theorem_word, foo_legal⟩

theorem restated_refused_freshName :
    exactText id freshName.text =
      exactText id (canonical "theorem".toList "foo".toList freshName.binders freshName.conclusion) :=
  ((restated_refused_iff Function.injective_id fooGoal freshName (.inl (by decide))).mpr
    ⟨by decide, by unfold Signature.SetOff; decide⟩).1

/-- The colon inside the conclusion is taken for the one before it: the goal's own
restatement is a new node below it. -/
theorem restated_accepted_colonGlued :
    colonGlued.text = "theorem bar: ∀ x : Nat, x = x".toList ∧
      let goal := canonical "theorem".toList "foo".toList colonGlued.binders colonGlued.conclusion
      let s := Store.empty.insertGoal (exactText id goal) goal
      exactText id colonGlued.text ≠ exactText id goal ∧
        (s.addDecomposition 0 [(exactText id colonGlued.text, colonGlued.text)] none).toBool = true := by
  decide

end EvoHarness.Proof
