import EvoHarness.Library.Spacing

/-! The memoization key: the proposition of a declaration signature, its white space
normalized, hashed. The name is dropped, the binders move behind a `∀`. -/
namespace EvoHarness.Proof
open PyText

def keywords : List Text := ["theorem".toList, "lemma".toList, "example".toList, "def".toList]

def openBrackets : Text := "([\x7b⦃".toList
def closeBrackets : Text := ")]\x7d⦄".toList

/-- What stands before and after the first `mark` outside brackets. -/
def cutTopLevel (mark : Char) : ℤ → Text → Option (Text × Text)
  | _, [] => none
  | depth, c :: t =>
    let keep := Option.map fun (a, b) => (c :: a, b)
    if c ∈ openBrackets then keep (cutTopLevel mark (depth + 1) t)
    else if c ∈ closeBrackets then keep (cutTopLevel mark (depth - 1) t)
    else if c = mark ∧ depth = 0 then some ([], t)
    else keep (cutTopLevel mark depth t)

def splitOnTopLevelColon (body : Text) : Text × Text :=
  match cutTopLevel ':' 0 body with
  | some (before, after) => (strip before, strip after)
  | none => ([], strip body)

/-- The first keyword that stands before a blank goes, with the white space after it. -/
def dropKeyword (body : Text) : Text :=
  match keywords.find? fun k => (k ++ [' ']).isPrefixOf body with
  | some k => lstrip (body.drop (k.length + 1))
  | none => body

def propositionOf (body : Text) : Text :=
  let parts := splitOnTopLevelColon body
  if parts.2 = [] then strip body
  else if parts.1 = [] then parts.2
  else "∀ ".toList ++ parts.1 ++ ", ".toList ++ parts.2

def proposition (statement : Text) : Text :=
  propositionOf (afterWord (dropKeyword (strip statement)))

/-- `ExactTextHasher._one`; `sha256` is the digest of a text's UTF-8 encoding. -/
def exactText (sha256 : Text → Text) (statement : Text) : Text :=
  "text:".toList ++ sha256 (squeeze (proposition statement))

theorem exactText_inj {sha256 : Text → Text} (hsha : Function.Injective sha256) {s t : Text} :
    exactText sha256 s = exactText sha256 t ↔ squeeze (proposition s) = squeeze (proposition t) := by
  simp only [exactText, List.append_cancel_left_eq]
  exact hsha.eq_iff

def LegalName (n : Text) : Prop :=
  n ≠ [] ∧ ∀ c ∈ n, isSpace c = false ∧ c ≠ ':' ∧ c ∉ openBrackets ∧ c ∉ closeBrackets

instance (n : Text) : Decidable (LegalName n) :=
  have : Decidable (∀ c ∈ n, isSpace c = false ∧ c ≠ ':' ∧ c ∉ openBrackets ∧ c ∉ closeBrackets) :=
    List.decidableBAll _ n
  inferInstanceAs (Decidable (n ≠ [] ∧ _))

structure Signature where
  keyword : Text
  nameGap : Text
  name : Text
  binderGap : Text
  binders : Text
  colonGap : Text
  conclusionGap : Text
  conclusion : Text
  keyword_word : keyword ≠ [] ∧ NoSpace keyword := by decide
  nameGap_blank : isBlank nameGap = true ∧ nameGap ≠ [] := by decide
  name_legal : LegalName name := by decide
  binderGap_blank : isBlank binderGap = true := by decide
  binders_set : binders ≠ [] → binderGap = [] → binders.head? ∈ openBrackets.map some := by decide
  binders_trimmed : Trimmed binders := by decide
  binders_last : binders.getLast? ≠ some ':' := by decide
  colonGap_blank : isBlank colonGap = true := by decide
  conclusionGap_blank : isBlank conclusionGap = true := by decide
  conclusion_ne : conclusion ≠ [] := by decide
  conclusion_trimmed : Trimmed conclusion := by decide
  conclusion_edges : conclusion.head? ≠ some ':' ∧ conclusion.getLast? ≠ some ':' := by decide

namespace Signature

def rest (s : Signature) : Text :=
  s.binderGap ++ s.binders ++ s.colonGap ++ ':' :: (s.conclusionGap ++ s.conclusion)

def text (s : Signature) : Text := s.keyword ++ s.nameGap ++ s.name ++ s.rest

end Signature

/-- A signature with single blanks: `kw n binders : conclusion`. -/
def canonical (keyword name binders conclusion : Text) : Text :=
  keyword ++ [' '] ++ name ++ [' '] ++ (if binders = [] then [] else binders ++ [' ']) ++
    ": ".toList ++ conclusion

/-- The depth the scan is at after `t`, if it meets no `mark` outside brackets. -/
def depthAfter (mark : Char) : ℤ → Text → Option ℤ
  | depth, [] => some depth
  | depth, c :: t =>
    if c ∈ openBrackets then depthAfter mark (depth + 1) t
    else if c ∈ closeBrackets then depthAfter mark (depth - 1) t
    else if c = mark ∧ depth = 0 then none
    else depthAfter mark depth t

/-- Brackets balance as the scan counts them, and no `mark` stands outside them. -/
def Balanced (mark : Char) (t : Text) : Prop := depthAfter mark 0 t = some 0

instance (mark : Char) (t : Text) : Decidable (Balanced mark t) := inferInstanceAs (Decidable (_ = _))

variable {mark : Char} {d e : ℤ} {t u a b : Text}

theorem depthAfter_append :
    depthAfter mark d (t ++ u) = (depthAfter mark d t).bind fun e => depthAfter mark e u := by
  induction t generalizing d with
  | nil => rfl
  | cons c t ih =>
    simp only [List.cons_append, depthAfter]
    split
    · exact ih
    · split
      · exact ih
      · split
        · rfl
        · exact ih

theorem cutTopLevel_append (h : depthAfter mark d t = some e) :
    cutTopLevel mark d (t ++ u) = (cutTopLevel mark e u).map fun p => (t ++ p.1, p.2) := by
  induction t generalizing d with
  | nil =>
    obtain rfl := Option.some.inj h
    simp
  | cons c t ih =>
    simp only [depthAfter] at h
    simp only [List.cons_append, cutTopLevel]
    split at h
    · next ho => simp [ho, ih h, Function.comp_def]
    · next ho =>
      split at h
      · next hcl => simp [ho, hcl, ih h, Function.comp_def]
      · next hcl =>
        split at h
        · simp at h
        · next hm => simp [ho, hcl, hm, ih h, Function.comp_def]

theorem cutTopLevel_cases (mark : Char) (d : ℤ) (t : Text) :
    (∃ a b, cutTopLevel mark d t = some (a, b) ∧ t = a ++ mark :: b ∧ depthAfter mark d a = some 0) ∨
      (cutTopLevel mark d t = none ∧ ∃ e, depthAfter mark d t = some e) := by
  induction t generalizing d with
  | nil => exact Or.inr ⟨rfl, d, rfl⟩
  | cons c t ih =>
    -- one character further, at whatever depth it leaves the scan
    have further : ∀ k, (∀ a, depthAfter mark d (c :: a) = depthAfter mark k a) →
        cutTopLevel mark d (c :: t) = (cutTopLevel mark k t).map (fun (a, b) => (c :: a, b)) →
        (∃ a b, cutTopLevel mark d (c :: t) = some (a, b) ∧ c :: t = a ++ mark :: b ∧
          depthAfter mark d a = some 0) ∨
        (cutTopLevel mark d (c :: t) = none ∧ ∃ e, depthAfter mark d (c :: t) = some e) := by
      intro k hk hcut
      rcases ih k with ⟨a, b, h, rfl, ha⟩ | ⟨h, e, he⟩
      · exact Or.inl ⟨c :: a, b, by rw [hcut, h]; rfl, rfl, by rw [hk, ha]⟩
      · exact Or.inr ⟨by rw [hcut, h]; rfl, e, by rw [hk, he]⟩
    by_cases ho : c ∈ openBrackets
    · exact further (d + 1) (by simp [depthAfter, ho]) (by simp [cutTopLevel, ho])
    · by_cases hcl : c ∈ closeBrackets
      · exact further (d - 1) (by simp [depthAfter, ho, hcl]) (by simp [cutTopLevel, ho, hcl])
      · by_cases hm : c = mark ∧ d = 0
        · refine Or.inl ⟨[], t, by simp only [cutTopLevel, if_neg ho, if_neg hcl, if_pos hm], by simp [hm.1], ?_⟩
          rw [hm.2]
          rfl
        · exact further d (by simp [depthAfter, ho, hcl, hm]) (by simp [cutTopLevel, ho, hcl, hm])

def IsMark (mark : Char) : Prop := mark ∉ openBrackets ∧ mark ∉ closeBrackets ∧ isSpace mark = false

theorem isMark_colon : IsMark ':' := by unfold IsMark; decide
theorem isMark_comma : IsMark ',' := by unfold IsMark; decide

theorem cutTopLevel_mark (hm : IsMark mark) (h : depthAfter mark d a = some 0) :
    cutTopLevel mark d (a ++ mark :: b) = some (a, b) := by
  rw [cutTopLevel_append h]
  simp [cutTopLevel, hm.1, hm.2.1]

theorem cutTopLevel_none (h : depthAfter mark d t = some e) : cutTopLevel mark d t = none := by
  simpa [cutTopLevel] using cutTopLevel_append (u := []) h

theorem depthAfter_unique (hm : IsMark mark) {a' b' : Text} (h : depthAfter mark d a = some 0)
    (h' : depthAfter mark d a' = some 0) (he : a ++ mark :: b = a' ++ mark :: b') :
    a = a' ∧ b = b' := by
  have := (cutTopLevel_mark (b := b) hm h).symm.trans (he ▸ cutTopLevel_mark (b := b') hm h')
  exact Prod.mk.inj (Option.some.inj this)

theorem space_not_bracket {c : Char} (h : isSpace c = true) : c ∉ openBrackets ∧ c ∉ closeBrackets := by
  have : NoSpace (openBrackets ++ closeBrackets) := by decide
  constructor <;> intro hc
  · simp [this c (List.mem_append_left _ hc)] at h
  · simp [this c (List.mem_append_right _ hc)] at h

theorem depthAfter_space (hm : IsMark mark) {c : Char} (h : isSpace c = true) :
    depthAfter mark d (c :: t) = depthAfter mark d t := by
  have hb := space_not_bracket h
  have hne : c ≠ mark := by
    rintro rfl
    simp [hm.2.2] at h
  simp [depthAfter, hb.1, hb.2, hne]

theorem depthAfter_blank (hm : IsMark mark) (h : isBlank t = true) : depthAfter mark d t = some d := by
  induction t with
  | nil => rfl
  | cons c t ih =>
    simp only [isBlank_cons, Bool.and_eq_true] at h
    rw [depthAfter_space hm h.1, ih h.2]

theorem depthAfter_ink (hm : IsMark mark) : depthAfter mark d (ink t) = depthAfter mark d t := by
  induction t generalizing d with
  | nil => rfl
  | cons c t ih =>
    cases hc : isSpace c
    · have hink : ink (c :: t) = c :: ink t := by simp [ink, hc]
      simp only [hink, depthAfter, ih]
    · have hink : ink (c :: t) = ink t := by simp [ink, hc]
      rw [hink, ih, depthAfter_space hm hc]

theorem depthAfter_of_ink_eq (hm : IsMark mark) (h : ink t = ink u) :
    depthAfter mark d t = depthAfter mark d u := by
  rw [← depthAfter_ink hm, h, depthAfter_ink hm]

end EvoHarness.Proof
