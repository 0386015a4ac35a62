import EvoHarness.Library.Spacing
import EvoHarness.Identity

/-! How Lean reads a signature, as far as white space goes: brackets, colons and commas
are tokens of their own, white space inside a string literal is part of it, a line
comment ends at its newline. Normalizing the white space of a plain text keeps its
tokens. -/
namespace EvoHarness.Proof
open PyText

/-- Where the reader stands: between tokens, inside a word, inside a string literal
(after a backslash, in `escape`), or inside a line comment. -/
inductive Reader where
  | between
  | word (w : Text)
  | literal (w : Text)
  | escape (w : Text)
  | comment
  deriving DecidableEq

def isDelimiter (c : Char) : Bool := c ∈ openBrackets ∨ c ∈ closeBrackets ∨ c = ':' ∨ c = ','

def Reader.flush : Reader → List Text
  | .between => []
  | .word w => [w]
  | .literal w => [w]
  | .escape w => [w]
  | .comment => []

/-- One character, given whether a dash follows it: the tokens it ends, and where it leads. -/
def Reader.step (r : Reader) (c : Char) (dashNext : Bool) : List Text × Reader :=
  match r with
  | .literal w =>
    if c = '\\' then ([], .escape (w ++ [c]))
    else if c = '"' then ([w ++ [c]], .between)
    else ([], .literal (w ++ [c]))
  | .escape w => ([], .literal (w ++ [c]))
  | .comment => ([], if c = '\n' then .between else .comment)
  | r =>
    if isSpace c then (r.flush, .between)
    else if c = '"' then (r.flush, .literal [c])
    else if c = '-' ∧ dashNext then (r.flush, .comment)
    else if isDelimiter c then (r.flush ++ [[c]], .between)
    else match r with
      | .word w => ([], .word (w ++ [c]))
      | _ => ([], .word [c])

def dashNext (t : Text) : Bool := t.head? = some '-'

def Reader.closed : Reader → Bool
  | .between => true
  | .word _ => true
  | _ => false

/-- The tokens read to the end of the text, and whether nothing is left open there. -/
def Reader.readAll : Reader → Text → List Text × Bool
  | r, [] => (r.flush, r.closed)
  | r, c :: t =>
    let one := r.step c (dashNext t)
    let later := one.2.readAll t
    (one.1 ++ later.1, later.2)

def tokens (t : Text) : List Text := (Reader.between.readAll t).1

/-- Nothing normalization could touch: no line comment, and inside string literals
only single blanks. -/
def Reader.Plain : Reader → Text → Prop
  | _, [] => True
  | r, c :: t =>
    (r.step c (dashNext t)).2 ≠ .comment ∧
    (isSpace c = true → r.closed = false → c = ' ' ∧ ∃ d ∈ t.head?, isSpace d = false) ∧
    (r.step c (dashNext t)).2.Plain t

instance Reader.decidablePlain : ∀ (r : Reader) (t : Text), Decidable (r.Plain t)
  | _, [] => inferInstanceAs (Decidable True)
  | r, c :: t =>
    have := decidablePlain (r.step c (dashNext t)).2 t
    inferInstanceAs (Decidable (_ ∧ _ ∧ _))

def PlainText (t : Text) : Prop := Reader.between.Plain t ∧ (Reader.between.readAll t).2 = true

instance (t : Text) : Decidable (PlainText t) := inferInstanceAs (Decidable (_ ∧ _))

variable {t u g : Text} {c : Char} {r : Reader} {b : Bool}

theorem Reader.readAll_cons :
    r.readAll (c :: t) = ((r.step c (dashNext t)).1 ++ ((r.step c (dashNext t)).2.readAll t).1,
      ((r.step c (dashNext t)).2.readAll t).2) := rfl

theorem Reader.step_space (hr : r.closed = true) (hc : isSpace c = true) (d : Bool) :
    r.step c d = (r.flush, .between) := by
  cases r with
  | between => exact if_pos hc
  | word w => exact if_pos hc
  | literal w => cases hr
  | escape w => cases hr
  | comment => cases hr

theorem Reader.readAll_space (hr : r.closed = true) (hc : isSpace c = true) :
    r.readAll (c :: t) = (r.flush ++ tokens t, (Reader.between.readAll t).2) := by
  rw [readAll_cons, step_space hr hc]
  rfl

theorem tokens_space (hc : isSpace c = true) : tokens (c :: t) = tokens t := by
  rw [tokens, Reader.readAll_space rfl hc]
  rfl

theorem tokens_blank_append (hg : isBlank g = true) : tokens (g ++ t) = tokens t := by
  induction g with
  | nil => rfl
  | cons c g ih =>
    simp only [isBlank_cons, Bool.and_eq_true] at hg
    rw [List.cons_append, tokens_space hg.1, ih hg.2]

theorem dashNext_collapse : dashNext (collapse false t) = dashNext t := by
  cases t with
  | nil => rfl
  | cons c t =>
    cases hc : isSpace c
    · simp [collapse_ink hc, dashNext]
    · have hne : c ≠ '-' := by
        rintro rfl
        simp [isSpace] at hc
      have hrun : ∀ u : Text, dashNext (collapse true u) = false := by
        intro u
        induction u with
        | nil => rfl
        | cons d u ih =>
          cases hd : isSpace d
          · simp [collapse_ink hd, dashNext]
          · rw [collapse_blank hd, ih]
      rw [collapse_blank hc, hrun]
      simp [dashNext, hne]

theorem Reader.Plain.later (h : r.Plain (c :: t)) : (r.step c (dashNext t)).2.Plain t := h.2.2

theorem Reader.Plain.after_space (h : r.Plain (c :: t)) (hr : r.closed = true)
    (hc : isSpace c = true) : Reader.between.Plain t := by
  have := h.later
  rwa [step_space hr hc] at this

theorem Reader.readAll_collapse (t : Text) :
    (∀ r : Reader, r ≠ .comment → r.Plain t → r.readAll (collapse false t) = r.readAll t) ∧
      (Reader.between.Plain t → ∀ r : Reader, r.closed = true →
        r.readAll (collapse true t) = (r.flush ++ tokens t, (Reader.between.readAll t).2)) := by
  induction t with
  | nil =>
    refine ⟨fun _ _ _ => rfl, fun _ r hr => ?_⟩
    simp only [collapse, readAll, tokens, Reader.flush, List.append_nil, hr]
    rfl
  | cons c t ih =>
    obtain ⟨ihFlat, ihRun⟩ := ih
    have flat : ∀ r : Reader, r ≠ .comment → r.Plain (c :: t) →
        r.readAll (collapse false (c :: t)) = r.readAll (c :: t) := by
      intro r hr hp
      cases hc : isSpace c
      · rw [collapse_ink hc, if_neg (by simp), List.singleton_append, readAll_cons, readAll_cons,
          dashNext_collapse, ihFlat _ hp.1 hp.later]
      · rw [collapse_blank hc]
        cases hcl : r.closed
        · -- a blank inside a literal stands alone
          obtain ⟨rfl, d, hd, hink⟩ := hp.2.1 hc hcl
          obtain ⟨u, rfl⟩ := List.head?_eq_some_iff.mp hd
          rw [collapse_true (by simpa using hink) (by simp), readAll_cons, readAll_cons,
            dashNext_collapse, ihFlat _ hp.1 hp.later]
        · rw [ihRun (hp.after_space hcl hc) r hcl, readAll_space hcl hc]
    refine ⟨flat, fun hp r hr => ?_⟩
    cases hc : isSpace c
    · rw [collapse_true (by simpa using hc) (by simp), readAll_space hr (by decide), tokens,
        flat .between (by simp) hp]
      rfl
    · rw [collapse_blank hc, ihRun (hp.after_space rfl hc) r hr, tokens_space hc, readAll_space rfl hc]

theorem readAll_squeeze (h : Reader.between.Plain t) (ht : Trimmed t) :
    Reader.between.readAll (squeeze t) = Reader.between.readAll t := by
  rw [squeeze_of_trimmed ht]
  exact (Reader.readAll_collapse t).1 .between (by simp) h

theorem tokens_squeeze (h : PlainText t) (ht : Trimmed t) : tokens (squeeze t) = tokens t := by
  rw [tokens, readAll_squeeze h.1 ht, tokens]

theorem Reader.step_delimiter (hr : r.closed = true) (hc : isDelimiter c = true) (d : Bool) :
    r.step c d = (r.flush ++ [[c]], .between) := by
  have hsp : isSpace c = false ∧ c ≠ '"' ∧ c ≠ '-' := by
    have : (openBrackets ++ closeBrackets ++ [':', ',']).all
        (fun x => !isSpace x && x != '"' && x != '-') = true := by decide
    have hc' := List.all_eq_true.mp this c (by simpa [isDelimiter, or_assoc] using hc)
    simpa [and_assoc] using hc'
  have hstep : ∀ r : Reader, (if isSpace c then (r.flush, Reader.between)
      else if c = '"' then (r.flush, .literal [c])
      else if c = '-' ∧ d then (r.flush, .comment)
      else if isDelimiter c then (r.flush ++ [[c]], .between)
      else match r with
        | .word w => ([], .word (w ++ [c]))
        | _ => ([], .word [c])) = (r.flush ++ [[c]], .between) := by
    intro r
    rw [if_neg (by simp [hsp.1]), if_neg hsp.2.1, if_neg (fun h => hsp.2.2 h.1), if_pos hc]
  cases r with
  | between => exact hstep .between
  | word w => exact hstep (.word w)
  | literal w => cases hr
  | escape w => cases hr
  | comment => cases hr

theorem Reader.readAll_delimiter (ht : (r.readAll t).2 = true) (hc : isDelimiter c = true) :
    r.readAll (t ++ c :: u) = ((r.readAll t).1 ++ [c] :: tokens u, (Reader.between.readAll u).2) := by
  induction t generalizing r with
  | nil =>
    rw [List.nil_append, readAll_cons, step_delimiter ht hc]
    simp [readAll, tokens]
  | cons d t ih =>
    have hdash : dashNext (t ++ c :: u) = dashNext t := by
      cases t with
      | nil =>
        have hne : c ≠ '-' := by
          rintro rfl
          simp [isDelimiter, openBrackets, closeBrackets] at hc
        simp [dashNext, hne]
      | cons e t => rfl
    rw [readAll_cons] at ht
    rw [List.cons_append, readAll_cons, hdash, ih ht, readAll_cons]
    simp

theorem tokens_delimiter (ht : (Reader.between.readAll t).2 = true) (hc : isDelimiter c = true) :
    tokens (t ++ c :: u) = tokens t ++ [c] :: tokens u := by
  rw [tokens, Reader.readAll_delimiter ht hc]
  rfl

theorem Reader.readAll_append_blank (ht : (r.readAll t).2 = true) (hg : isBlank g = true) :
    r.readAll (t ++ g) = r.readAll t := by
  induction t generalizing r with
  | nil =>
    cases g with
    | nil => rfl
    | cons c g =>
      simp only [isBlank_cons, Bool.and_eq_true] at hg
      have hnil : ∀ g : Text, isBlank g = true → Reader.between.readAll g = ([], true) := by
        intro g hg
        induction g with
        | nil => rfl
        | cons c g ih =>
          simp only [isBlank_cons, Bool.and_eq_true] at hg
          rw [readAll_space rfl hg.1, tokens, ih hg.2]
          rfl
      rw [List.nil_append, readAll_space ht hg.1, tokens, hnil g hg.2]
      simp only [readAll] at ht ⊢
      simp [ht]
  | cons d t ih =>
    have hdash : dashNext (t ++ g) = dashNext t := by
      cases t with
      | nil =>
        cases g with
        | nil => rfl
        | cons c g =>
          simp only [isBlank_cons, Bool.and_eq_true] at hg
          have hne : c ≠ '-' := by
            rintro rfl
            simp [isSpace] at hg
          simp [dashNext, hne]
      | cons e t => rfl
    rw [readAll_cons] at ht
    rw [List.cons_append, readAll_cons, hdash, ih ht, readAll_cons]

theorem tokens_forall (ht : (Reader.between.readAll t).2 = true) :
    tokens ("∀ ".toList ++ t ++ ", ".toList ++ u) = "∀".toList :: (tokens t ++ ",".toList :: tokens u) := by
  have hall : ∀ x, tokens ("∀ ".toList ++ x) = "∀".toList :: tokens x := by
    intro x
    have hstep : Reader.between.step '∀' (dashNext (' ' :: x)) = ([], .word ['∀']) := rfl
    rw [tokens, show "∀ ".toList ++ x = '∀' :: ' ' :: x from rfl, Reader.readAll_cons, hstep,
      Reader.readAll_space rfl (by decide)]
    rfl
  rw [List.append_assoc, List.append_assoc, hall, show ", ".toList ++ u = ',' :: ' ' :: u from rfl,
    tokens_delimiter ht (by decide), tokens_space (by decide)]
  rfl

end EvoHarness.Proof
