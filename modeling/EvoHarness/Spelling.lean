import EvoHarness.Identity

/-! The proposition the hasher reads off a signature, as a function of how the
signature is spelled. -/
namespace EvoHarness.Proof
open PyText

variable {t u w a b g : Text} {c : Char}

theorem afterWord_append (hw : NoSpace w) (hne : w ≠ [])
    (ht : ∀ c, t.head? = some c → isSpace c = true) : afterWord (w ++ t) = lstrip t := by
  have hhead : ∀ c, (w ++ t).head? = some c → isSpace c = false := by
    intro c hc
    rw [List.head?_append_of_ne_nil w hne] at hc
    exact hw c (List.mem_of_head? hc)
  have hdrop : (w ++ t).dropWhile (!isSpace ·) = t := by
    rw [List.dropWhile_append_of_pos fun c hc => by simp [hw c hc]]
    cases t with
    | nil => rfl
    | cons c t => simp [ht c rfl]
  rw [afterWord, lstrip_of_head hhead, hdrop]

theorem head?_of_isBlank (h : isBlank g = true) (hc : g.head? = some c) : isSpace c = true :=
  isBlank_iff.mp h c (List.mem_of_head? hc)

theorem not_isBlank_of_trimmed (h : Trimmed t) (hne : t ≠ []) : isBlank t = false := by
  cases t with
  | nil => exact absurd rfl hne
  | cons c t => simp [isBlank_cons, h.1 c rfl]

theorem afterWord_glued (hw : NoSpace w) (hne : w ≠ []) (htne : t ≠ [])
    (ht : ∀ c, t.head? = some c → isSpace c = false) :
    ∃ v, v ≠ [] ∧ ink t = v ++ ink (afterWord (w ++ t)) := by
  have hhead : lstrip (w ++ t) = w ++ t := by
    refine lstrip_of_head fun c hc => ?_
    rw [List.head?_append_of_ne_nil w hne] at hc
    exact hw c (List.mem_of_head? hc)
  refine ⟨t.takeWhile (!isSpace ·), ?_, ?_⟩
  · cases t with
    | nil => exact absurd rfl htne
    | cons c t => simp [ht c rfl]
  · rw [afterWord, hhead, List.dropWhile_append_of_pos fun c hc => by simp [hw c hc], ink_lstrip]
    conv_lhs => rw [← List.takeWhile_append_dropWhile (p := (!isSpace ·)) (l := t)]
    rw [ink_append]
    congr 1
    refine List.filter_eq_self.mpr fun c hc => ?_
    exact List.mem_takeWhile_imp (p := fun x => !isSpace x) hc

theorem propositionOf_raw (h : cutTopLevel ':' 0 t = none) : propositionOf t = strip t := by
  simp [propositionOf, splitOnTopLevelColon, h]

theorem propositionOf_cut (h : cutTopLevel ':' 0 t = some (a, b)) :
    propositionOf t = if isBlank b then strip t else if isBlank a then strip b
      else "∀ ".toList ++ strip a ++ ", ".toList ++ strip b := by
  simp only [propositionOf, splitOnTopLevelColon, h, strip_eq_nil]

/-- Binders that balance go behind the `∀`, whatever white space stands around the colon. -/
theorem propositionOf_balanced {h : Text} (ha : Balanced ':' a) (hat : Trimmed a) (hane : a ≠ [])
    (hbt : Trimmed b) (hbne : b ≠ []) (hg : isBlank g = true) (hh : isBlank h = true) :
    propositionOf (a ++ g ++ ':' :: (h ++ b)) = "∀ ".toList ++ a ++ ", ".toList ++ b := by
  have hcut : cutTopLevel ':' 0 (a ++ g ++ ':' :: (h ++ b)) = some (a ++ g, h ++ b) := by
    refine cutTopLevel_mark isMark_colon ?_
    rw [depthAfter_append, show depthAfter ':' 0 a = some 0 from ha]
    exact depthAfter_blank isMark_colon hg
  rw [propositionOf_cut hcut]
  simp only [isBlank_append, hg, hh, not_isBlank_of_trimmed hat hane,
    not_isBlank_of_trimmed hbt hbne, Bool.and_false, Bool.false_and, Bool.false_eq_true, if_false]
  rw [strip_append_blank hg, strip_blank_append hh, strip_of_trimmed hat, strip_of_trimmed hbt]

theorem propositionOf_bare (hb : Trimmed b) (hbne : b ≠ []) (hg : isBlank g = true) :
    propositionOf (':' :: (g ++ b)) = b := by
  have hcut : cutTopLevel ':' 0 (':' :: (g ++ b)) = some ([], g ++ b) :=
    cutTopLevel_mark (a := []) isMark_colon rfl
  rw [propositionOf_cut hcut]
  simp [isBlank_append, hg, not_isBlank_of_trimmed hb hbne, strip_blank_append hg,
    strip_of_trimmed hb, show isBlank [] = true from rfl]

def inkProposition (x : Text) : Text :=
  match cutTopLevel ':' 0 x with
  | none => x
  | some (a, b) => if b = [] then x else if a = [] then b else '∀' :: a ++ ',' :: b

theorem cutTopLevel_ink {mark : Char} (hm : IsMark mark) (d : ℤ) :
    cutTopLevel mark d (ink t) = (cutTopLevel mark d t).map fun p => (ink p.1, ink p.2) := by
  rcases cutTopLevel_cases mark d t with ⟨a, b, h, rfl, ha⟩ | ⟨h, e, he⟩
  · have hink : ink (a ++ mark :: b) = ink a ++ mark :: ink b := by simp [ink, hm.2.2]
    rw [hink, h, cutTopLevel_mark hm (by rw [depthAfter_ink hm, ha])]
    rfl
  · rw [h, cutTopLevel_none (by rw [depthAfter_ink hm, he])]
    rfl

theorem ink_propositionOf (t : Text) : ink (propositionOf t) = inkProposition (ink t) := by
  unfold inkProposition
  rw [cutTopLevel_ink isMark_colon]
  cases h : cutTopLevel ':' 0 t with
  | none => simp [propositionOf_raw h]
  | some p =>
    obtain ⟨a, b⟩ := p
    simp only [propositionOf_cut h, Option.map_some, ink_eq_nil]
    split
    · simp
    · split
      · simp
      · have hall : ink "∀ ".toList = ['∀'] := by decide
        have hcomma : ink ", ".toList = [','] := by decide
        rw [ink_append, ink_append, ink_append, hall, hcomma, ink_strip, ink_strip]
        simp

theorem depthAfter_name {n : Text} (hn : LegalName n) : depthAfter ':' 0 n = some 0 := by
  have hall := hn.2
  clear hn
  induction n with
  | nil => rfl
  | cons c n ih =>
    have hc := hall c (List.mem_cons_self ..)
    simp only [depthAfter, hc, if_false, false_and]
    exact ih fun d hd => hall d (List.mem_cons_of_mem c hd)

/-- Where a name that was not cut off stands in the proposition. -/
theorem inkProposition_named (x : Text) : ∃ pre post, (∀ n, LegalName n → inkProposition (n ++ x) = pre ++ n ++ post) ∧
    x.length ≤ pre.length + post.length := by
  have hcut : ∀ n, LegalName n → cutTopLevel ':' 0 (n ++ x) = (cutTopLevel ':' 0 x).map fun p => (n ++ p.1, p.2) :=
    fun n hn => cutTopLevel_append (depthAfter_name hn)
  rcases cutTopLevel_cases ':' 0 x with ⟨a, b, h, hx, _⟩ | ⟨h, _⟩
  · by_cases hb : b = []
    · refine ⟨[], x, fun n hn => ?_, by simp⟩
      simp only [inkProposition, hcut n hn, h, Option.map_some, hb, if_true, List.nil_append]
    · refine ⟨['∀'], a ++ ',' :: b, fun n hn => ?_, ?_⟩
      · simp [inkProposition, hcut n hn, h, hb, hn.1]
      · simp only [hx, List.length_append, List.length_cons, List.length_nil]
        omega
  · refine ⟨[], x, fun n hn => ?_, by simp⟩
    simp only [inkProposition, hcut n hn, h, Option.map_none, List.nil_append]

theorem inkProposition_name {n x : Text} (hn : LegalName n) :
    inkProposition (n ++ x) ≠ inkProposition x := by
  have hdepth : depthAfter ':' 0 n = some 0 := depthAfter_name hn
  have hpos : 0 < n.length := List.length_pos_iff.mpr hn.1
  intro heq
  have hlen := congrArg List.length heq
  simp only [inkProposition, cutTopLevel_append hdepth] at hlen
  cases h : cutTopLevel ':' 0 x with
  | none =>
    simp only [h, Option.map_none, List.length_append] at hlen
    omega
  | some p =>
    obtain ⟨a, b⟩ := p
    simp only [h, Option.map_some, List.append_eq_nil_iff, hn.1, false_and, if_false] at hlen
    split at hlen
    · simp only [List.length_append] at hlen
      omega
    · split at hlen
      · simp only [List.length_append, List.length_cons] at hlen
        omega
      · simp only [List.length_append, List.length_cons] at hlen
        omega

theorem inkProposition_cases (x : Text) :
    inkProposition x = x ∨ (∃ b, x = ':' :: b ∧ inkProposition x = b) ∨
      ∃ a b, x = a ++ ':' :: b ∧ inkProposition x = '∀' :: a ++ ',' :: b := by
  unfold inkProposition
  rcases cutTopLevel_cases ':' 0 x with ⟨a, b, h, hx, _⟩ | ⟨h, _⟩
  · simp only [h]
    split
    · exact Or.inl rfl
    · split
      · next ha => exact Or.inr (Or.inl ⟨b, by simpa [ha] using hx, rfl⟩)
      · exact Or.inr (Or.inr ⟨a, b, hx, rfl⟩)
  · simp [h]

theorem length_inkProposition_le (x : Text) : (inkProposition x).length ≤ x.length + 1 := by
  rcases inkProposition_cases x with h | ⟨b, hx, h⟩ | ⟨a, b, hx, h⟩
  · rw [h]; omega
  · rw [h, hx, List.length_cons]; omega
  · rw [h, hx]; simp only [List.length_append, List.length_cons]; omega

/-- What is dropped with the name is not made up for by the `∀` and the comma. -/
theorem inkProposition_ne_append {x : Text} (hw : w ≠ []) : inkProposition x ≠ w ++ x := by
  have hpos : 0 < w.length := List.length_pos_iff.mpr hw
  rcases inkProposition_cases x with h | ⟨b, hx, h⟩ | ⟨a, b, hx, h⟩
  · rw [h]
    intro heq
    have := congrArg List.length heq
    simp only [List.length_append] at this
    omega
  · rw [h, hx]
    intro heq
    have := congrArg List.length heq
    simp only [List.length_append, List.length_cons] at this
    omega
  · rw [h, hx]
    intro heq
    have hlen : w.length = 1 := by
      have := congrArg List.length heq
      simp only [List.length_append, List.length_cons] at this
      omega
    obtain ⟨c, rfl⟩ := List.length_eq_one_iff.mp hlen
    simp at heq

/-- A word and a blank begin a text exactly when they are its first word and the blank after it. -/
theorem isPrefixOf_word {j k : Text} (hj : NoSpace j) (hk : NoSpace k)
    (hc : isSpace c = true) : (j ++ [' ']).isPrefixOf (k ++ c :: u) = true ↔ j = k ∧ c = ' ' := by
  induction j generalizing k with
  | nil =>
    cases k with
    | nil =>
      simp only [List.nil_append, List.isPrefixOf, Bool.and_true, beq_iff_eq, true_and]
      exact eq_comm
    | cons d k =>
      have hd := hk d (List.mem_cons_self ..)
      have hne : ' ' ≠ d := by
        rintro rfl
        simp [isSpace] at hd
      simp [List.isPrefixOf, hne]
  | cons d j ih =>
    have hd := hj d (List.mem_cons_self ..)
    cases k with
    | nil =>
      have hne : d ≠ c := by
        rintro rfl
        simp [hd] at hc
      simp [List.isPrefixOf, hne]
    | cons d' k =>
      have ih := ih (k := k) (fun x hx => hj x (List.mem_cons_of_mem d hx))
        fun x hx => hk x (List.mem_cons_of_mem d' hx)
      simp only [List.cons_append, List.isPrefixOf, Bool.and_eq_true, beq_iff_eq, ih, List.cons.injEq,
        and_assoc]

theorem keyword_ink : ∀ k ∈ keywords, NoSpace k := by decide

theorem keyword_word_of_mem {k : Text} (hk : k ∈ keywords) : k ≠ [] ∧ NoSpace k :=
  ⟨by rintro rfl; exact absurd hk (by decide), keyword_ink k hk⟩

theorem find_keyword {k : Text} (hk : k ∈ keywords) (u : Text) :
    keywords.find? (fun j => (j ++ [' ']).isPrefixOf (k ++ ' ' :: u)) = some k := by
  have hfirst : ∃ j, keywords.find? (fun j => (j ++ [' ']).isPrefixOf (k ++ ' ' :: u)) = some j := by
    refine Option.isSome_iff_exists.mp (List.find?_isSome.mpr ⟨k, hk, ?_⟩)
    exact (isPrefixOf_word (keyword_ink k hk) (keyword_ink k hk) (by decide)).mpr ⟨rfl, rfl⟩
  obtain ⟨j, hj⟩ := hfirst
  have hpre := List.find?_some hj
  have hmem := List.mem_of_find?_eq_some hj
  rw [hj, ((isPrefixOf_word (keyword_ink j hmem) (keyword_ink k hk) (by decide)).mp hpre).1]

theorem find_keyword_none {k : Text} (hk : NoSpace k) (hc : isSpace c = true)
    (hno : ¬(k ∈ keywords ∧ c = ' ')) (u : Text) :
    keywords.find? (fun j => (j ++ [' ']).isPrefixOf (k ++ c :: u)) = none := by
  refine List.find?_eq_none.mpr fun j hj hpre => ?_
  obtain ⟨rfl, hsp⟩ := (isPrefixOf_word (keyword_ink j hj) hk hc).mp hpre
  exact hno ⟨hj, hsp⟩

namespace Signature
variable (s : Signature)

theorem name_head {c : Char} (hc : (s.name ++ s.rest).head? = some c) : isSpace c = false := by
  rw [List.head?_append_of_ne_nil _ s.name_legal.1] at hc
  exact (s.name_legal.2 c (List.mem_of_head? hc)).1

theorem text_trimmed : Trimmed s.text := by
  obtain ⟨hne, hink⟩ := s.keyword_word
  constructor
  · intro c hc
    rw [text, List.append_assoc, List.append_assoc, List.head?_append_of_ne_nil _ hne] at hc
    exact hink c (List.mem_of_head? hc)
  · intro c hc
    refine s.conclusion_trimmed.2 c ?_
    rw [← hc]
    have : s.text = (s.keyword ++ s.nameGap ++ s.name ++ s.binderGap ++ s.binders ++ s.colonGap ++
        (':' :: s.conclusionGap)) ++ s.conclusion := by
      simp [text, rest]
    rw [this, List.getLast?_append_of_ne_nil _ s.conclusion_ne]

theorem nameGap_cons : ∃ c g, s.nameGap = c :: g ∧ isSpace c = true ∧ isBlank g = true := by
  cases h : s.nameGap with
  | nil => exact absurd h s.nameGap_blank.2
  | cons c g =>
    have := h ▸ s.nameGap_blank.1
    simp only [isBlank_cons, Bool.and_eq_true] at this
    exact ⟨c, g, rfl, this.1, this.2⟩

def KeywordSeen : Prop := s.keyword ∈ keywords ∧ s.nameGap.head? = some ' '

instance : Decidable s.KeywordSeen := inferInstanceAs (Decidable (_ ∧ _))

theorem proposition_text (h : s.KeywordSeen) :
    proposition s.text = propositionOf (afterWord (s.name ++ s.rest)) := by
  obtain ⟨c, g, hgap, _, hg⟩ := s.nameGap_cons
  obtain rfl : c = ' ' := by simpa [hgap] using h.2
  have htext : s.text = s.keyword ++ ' ' :: (g ++ (s.name ++ s.rest)) := by simp [text, hgap]
  have hdrop : dropKeyword s.text = s.name ++ s.rest := by
    unfold dropKeyword
    rw [htext, find_keyword h.1]
    simp only
    rw [show s.keyword ++ ' ' :: (g ++ (s.name ++ s.rest)) =
      (s.keyword ++ [' ']) ++ (g ++ (s.name ++ s.rest)) by simp, List.drop_append_of_le_length
        (by simp), List.drop_of_length_le (by simp), List.nil_append, lstrip_append_of_blank hg]
    exact lstrip_of_head fun d hd => s.name_head hd
  rw [proposition, strip_of_trimmed s.text_trimmed, hdrop]

theorem proposition_text_of_not (h : ¬s.KeywordSeen) :
    proposition s.text = propositionOf (s.name ++ s.rest) := by
  obtain ⟨c, g, hgap, hsp, hg⟩ := s.nameGap_cons
  have hc : ¬(s.keyword ∈ keywords ∧ c = ' ') := by simpa [KeywordSeen, hgap] using h
  obtain ⟨hne, hink⟩ := s.keyword_word
  have hdrop : dropKeyword s.text = s.text := by
    unfold dropKeyword
    rw [show s.text = s.keyword ++ c :: (g ++ (s.name ++ s.rest)) by simp [text, hgap],
      find_keyword_none hink hsp hc]
  have hword : afterWord s.text = s.name ++ s.rest := by
    rw [show s.text = s.keyword ++ (s.nameGap ++ (s.name ++ s.rest)) by simp [text],
      afterWord_append hink hne, lstrip_append_of_blank s.nameGap_blank.1]
    · exact lstrip_of_head fun d hd => s.name_head hd
    · intro d hd
      have hgapd : isBlank s.nameGap = true := s.nameGap_blank.1
      rw [hgap, isBlank_cons, Bool.and_eq_true] at hgapd
      simp only [hgap, List.cons_append, List.head?_cons, Option.some.injEq] at hd
      exact hd ▸ hgapd.1
  rw [proposition, strip_of_trimmed s.text_trimmed, hdrop, hword]

theorem name_ink : NoSpace s.name := fun c hc => (s.name_legal.2 c hc).1

theorem afterWord_set (h : s.binderGap ≠ [] ∨ (s.binders = [] ∧ s.colonGap ≠ [])) :
    afterWord (s.name ++ s.rest) =
      s.binders ++ (if s.binders = [] then [] else s.colonGap) ++ ':' :: (s.conclusionGap ++ s.conclusion) := by
  have hrest : ∀ c, s.rest.head? = some c → isSpace c = true := by
    intro c hc
    rcases h with h | ⟨hb, h⟩
    · rw [rest, List.append_assoc, List.append_assoc, List.head?_append_of_ne_nil _ h] at hc
      exact head?_of_isBlank s.binderGap_blank hc
    · cases hg : s.binderGap with
      | nil =>
        rw [rest, hg, hb, List.nil_append, List.nil_append, List.head?_append_of_ne_nil _ h] at hc
        exact head?_of_isBlank s.colonGap_blank hc
      | cons d g =>
        rw [rest, hg, List.append_assoc, List.append_assoc,
          List.head?_append_of_ne_nil _ (by simp)] at hc
        exact head?_of_isBlank (hg ▸ s.binderGap_blank) hc
  rw [afterWord_append s.name_ink s.name_legal.1 hrest, rest, List.append_assoc, List.append_assoc,
    lstrip_append_of_blank s.binderGap_blank]
  by_cases hb : s.binders = []
  · rw [hb, List.nil_append, if_pos rfl, List.nil_append, lstrip_append_of_blank s.colonGap_blank]
    exact lstrip_cons_of_ink (by decide)
  · rw [if_neg hb, List.append_assoc]
    refine lstrip_of_head fun c hc => s.binders_trimmed.1 c ?_
    rwa [List.head?_append_of_ne_nil _ hb] at hc

/-- The same binders and conclusion under another keyword and name, with single blanks. -/
def respell (s : Signature) (kw n : Text) (hkw : kw ≠ [] ∧ NoSpace kw) (hn : LegalName n) : Signature :=
  { s with
    keyword := kw
    nameGap := [' ']
    name := n
    binderGap := [' ']
    colonGap := if s.binders = [] then [] else [' ']
    conclusionGap := [' ']
    keyword_word := hkw
    nameGap_blank := by decide
    name_legal := hn
    binderGap_blank := by decide
    binders_set := by simp
    colonGap_blank := by split <;> decide
    conclusionGap_blank := by decide }

end Signature

def freshName : Signature where
  keyword := "lemma".toList
  nameGap := [' ']
  name := "bar".toList
  binderGap := "  ".toList
  binders := "(a : Nat)".toList
  colonGap := []
  conclusionGap := []
  conclusion := "a = a".toList

def colonGlued : Signature where
  keyword := "theorem".toList
  nameGap := [' ']
  name := "bar".toList
  binderGap := []
  binders := []
  colonGap := []
  conclusionGap := [' ']
  conclusion := "∀ x : Nat, x = x".toList

def binderForm : Signature where
  keyword := "theorem".toList
  nameGap := [' ']
  name := "foo".toList
  binderGap := [' ']
  binders := "(a : Nat)".toList
  colonGap := [' ']
  conclusionGap := [' ']
  conclusion := "a = a".toList

def forallForm : Signature where
  keyword := "theorem".toList
  nameGap := [' ']
  name := "foo".toList
  binderGap := [' ']
  binders := []
  colonGap := []
  conclusionGap := [' ']
  conclusion := "∀ (a : Nat), a = a".toList

def binderGlued : Signature where
  keyword := "theorem".toList
  nameGap := [' ']
  name := "foo".toList
  binderGap := []
  binders := "{h:False}".toList
  colonGap := [' ']
  conclusionGap := [' ']
  conclusion := "P".toList

def noBinder : Signature where
  keyword := "theorem".toList
  nameGap := [' ']
  name := "foo".toList
  binderGap := [' ']
  binders := []
  colonGap := []
  conclusionGap := [' ']
  conclusion := "P".toList

end EvoHarness.Proof
