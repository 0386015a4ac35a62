import EvoHarness.Library.PyText

/-! Lean's comments: what a reader of Lean text takes for code, character by character,
from any point inside a file. Interpolated strings count as plain strings. -/
namespace EvoHarness.LeanComments
open PyText

/-- What the next character belongs to. A block comment of depth `d` has `d + 1` openings
that are not closed. -/
inductive Mode where
  | code (inWord : Bool)
  | line
  | opening (depth : ℕ)
  | block (depth : ℕ)
  | closing (depth : ℕ)
  | string
  | stringEscape
  | char
  | charEscape
  | quoted
  | rawOpening (hashes left : ℕ)
  | raw (hashes : ℕ)
  | rawClosing (left : ℕ)
  deriving DecidableEq, Repr

def Mode.closed : Mode → Bool
  | .code _ => true
  | .line => true
  | _ => false

def Mode.isCode : Mode → Bool
  | .code _ => true
  | _ => false

def isLetterLike (c : Char) : Bool :=
  let n := c.toNat
  (0x3b1 ≤ n && n ≤ 0x3c9 && n ≠ 0x3bb) || (0x391 ≤ n && n ≤ 0x3a9 && n ≠ 0x3a0 && n ≠ 0x3a3) ||
    (0x3ca ≤ n && n ≤ 0x3fb) || (0x1f00 ≤ n && n ≤ 0x1ffe) || (0x2100 ≤ n && n ≤ 0x214f) ||
    (0x1d49c ≤ n && n ≤ 0x1d59f) || (0xc0 ≤ n && n ≤ 0xff && n ≠ 0xd7 && n ≠ 0xf7) ||
    (0x100 ≤ n && n ≤ 0x17f)

def isSubScript (c : Char) : Bool :=
  let n := c.toNat
  (0x2080 ≤ n && n ≤ 0x2089) || (0x2090 ≤ n && n ≤ 0x209c) || (0x1d62 ≤ n && n ≤ 0x1d6a) || n == 0x2c7c

def isIdRest (c : Char) : Bool :=
  c.isAlphanum || c == '_' || c == '\'' || c == '!' || c == '?' || isLetterLike c || isSubScript c

/-- A character of code before `rest`: is it kept, and what comes next. -/
def codeStep (inWord : Bool) (c : Char) (rest : Text) : Bool × Mode :=
  if c = '-' ∧ rest.head? = some '-' then (false, .line)
  else if c = '/' ∧ rest.head? = some '-' then (false, .opening 0)
  else if c = '"' then (true, .string)
  else if c = '«' then (true, .quoted)
  else if inWord = false ∧ c = '\'' ∧ (rest.head? = some '\\' ∨ rest[1]? = some '\'') then (true, .char)
  else if inWord = false ∧ c = 'r' ∧ (rest.dropWhile (· == '#')).head? = some '"' then
    (true, .rawOpening (rest.takeWhile (· == '#')).length (rest.takeWhile (· == '#')).length)
  else (true, .code (isIdRest c))

def step : Mode → Char → Text → Bool × Mode
  | .code inWord, c, rest => codeStep inWord c rest
  | .line, c, _ => if c = '\n' then (true, .code false) else (false, .line)
  | .opening d, _, _ => (false, .block d)
  | .block d, c, rest =>
    if c = '-' ∧ rest.head? = some '/' then (false, .closing d)
    else if c = '/' ∧ rest.head? = some '-' then (false, .opening (d + 1))
    else (false, .block d)
  | .closing 0, _, _ => (false, .code false)
  | .closing (d + 1), _, _ => (false, .block d)
  | .string, c, _ => (true, if c = '"' then .code false else if c = '\\' then .stringEscape else .string)
  | .stringEscape, _, _ => (true, .string)
  | .char, c, _ => (true, if c = '\'' then .code false else if c = '\\' then .charEscape else .char)
  | .charEscape, _, _ => (true, .char)
  | .quoted, c, _ => (true, if c = '»' then .code true else .quoted)
  | .rawOpening h 0, _, _ => (true, .raw h)
  | .rawOpening h (n + 1), _, _ => (true, .rawOpening h n)
  | .raw h, c, rest =>
    if c = '"' ∧ rest.take h = List.replicate h '#' then
      (true, if h = 0 then .code false else .rawClosing (h - 1))
    else (true, .raw h)
  | .rawClosing 0, _, _ => (true, .code false)
  | .rawClosing (n + 1), _, _ => (true, .rawClosing n)

/-- The code characters of `t` read from a mode, when `after` follows it, and the mode behind. -/
def scan : Mode → Text → Text → Text × Mode
  | m, [], _ => ([], m)
  | m, c :: t, after =>
    let next := step m c (t ++ after)
    let rest := scan next.2 t after
    (if next.1 then c :: rest.1 else rest.1, rest.2)

def fresh : Mode := .code false

def uncomment (t : Text) : Text := (scan fresh t []).1

example : uncomment "a /- b /- -/ -/ := \"-- c\" -- d\n'\"' h'--\ne".toList =
    "a  := \"-- c\" \n'\"' h'\ne".toList := by decide +kernel

variable {m : Mode} {c : Char} {t u after : Text}

@[simp] theorem scan_nil : scan m [] after = ([], m) := rfl

theorem scan_cons : scan m (c :: t) after =
    (if (step m c (t ++ after)).1 then c :: (scan (step m c (t ++ after)).2 t after).1
      else (scan (step m c (t ++ after)).2 t after).1, (scan (step m c (t ++ after)).2 t after).2) := rfl

theorem scan_append (m : Mode) (t u after : Text) : scan m (t ++ u) after =
    ((scan m t (u ++ after)).1 ++ (scan (scan m t (u ++ after)).2 u after).1,
      (scan (scan m t (u ++ after)).2 u after).2) := by
  induction t generalizing m with
  | nil => rfl
  | cons c t ih =>
    rw [List.cons_append, scan_cons, scan_cons, List.append_assoc, ih]
    split
    · rfl
    · rfl

theorem scan_sublist (m : Mode) (t after : Text) : (scan m t after).1.Sublist t := by
  induction t generalizing m with
  | nil => exact List.Sublist.refl _
  | cons c t ih =>
    rw [scan_cons]
    split
    · exact (ih _).cons_cons c
    · exact (ih _).cons c

/-- A text behind another that changes nothing about how it is read: it does not go on with
a string, a character or a comment sign. -/
structure Quiet (after : Text) : Prop where
  head : ∀ c ∈ after.head?, c ≠ '"' ∧ c ≠ '#' ∧ c ≠ '\\' ∧ c ≠ '\'' ∧ c ≠ '/'
  second : after[1]? ≠ some '\''

theorem head?_append_quiet {rest : Text} {d : Char} (h : rest = [] → after.head? ≠ some d) :
    (rest ++ after).head? = some d ↔ rest.head? = some d := by
  cases rest with
  | nil => simpa using h rfl
  | cons e rest => simp

theorem Quiet.head_ne {d : Char} (h : Quiet after) (hd : d = '"' ∨ d = '#' ∨ d = '\\' ∨ d = '\'' ∨ d = '/') :
    after.head? ≠ some d := by
  intro he
  have hc := h.head d he
  grind

theorem Quiet.second_iff {rest : Text} (h : Quiet after) :
    (rest ++ after)[1]? = some '\'' ↔ rest[1]? = some '\'' := by
  match rest with
  | [] => simpa using h.second
  | [e] =>
    have hne := h.head_ne (d := '\'') (by simp)
    rw [List.head?_eq_getElem?] at hne
    simpa using hne
  | e :: f :: rest => simp

theorem Quiet.dropHashes {rest : Text} (h : Quiet after) :
    ((rest ++ after).dropWhile (· == '#')).head? = some '"' ↔ (rest.dropWhile (· == '#')).head? = some '"' := by
  induction rest with
  | nil =>
    cases hafter : after with
    | nil => simp
    | cons d after =>
      have hd := h.head d (by rw [hafter]; rfl)
      simp [hd.2.1, hd.1]
  | cons e rest ih =>
    rw [List.cons_append, List.dropWhile_cons, List.dropWhile_cons]
    split
    · exact ih
    · simp

theorem Quiet.takeHashes {rest : Text} (h : Quiet after) :
    (rest ++ after).takeWhile (· == '#') = rest.takeWhile (· == '#') := by
  induction rest with
  | nil =>
    cases hafter : after with
    | nil => simp
    | cons d after =>
      have hd := h.head d (by rw [hafter]; rfl)
      simp [hd.2.1]
  | cons e rest ih =>
    rw [List.cons_append, List.takeWhile_cons, List.takeWhile_cons, ih]

theorem Quiet.fence {rest : Text} {n : ℕ} (h : Quiet after) :
    (rest ++ after).take n = List.replicate n '#' ↔ rest.take n = List.replicate n '#' := by
  induction n generalizing rest with
  | zero => simp
  | succ n ih =>
    cases rest with
    | nil =>
      cases hafter : after with
      | nil => simp
      | cons d after =>
        have hd := h.head d (by rw [hafter]; rfl)
        simp [List.replicate_succ, hd.2.1]
    | cons e rest =>
      simp only [List.cons_append, List.take_succ_cons, List.replicate_succ, List.cons.injEq, ih]

theorem codeStep_quiet {rest : Text} {inWord : Bool} (h : Quiet after) (hdash : rest = [] → after.head? ≠ some '-') :
    codeStep inWord c (rest ++ after) = codeStep inWord c rest := by
  have hback := head?_append_quiet (d := '\\') fun _ : rest = [] => h.head_ne (by simp)
  simp only [codeStep, head?_append_quiet hdash, hback, h.second_iff, h.dropHashes, h.takeHashes]

theorem step_quiet {rest : Text} (h : Quiet after) (hdash : rest = [] → after.head? ≠ some '-') :
    step m c (rest ++ after) = step m c rest := by
  have hslash := head?_append_quiet (d := '/') fun _ : rest = [] => h.head_ne (by simp)
  cases m with
  | code inWord => exact codeStep_quiet h hdash
  | block d => simp only [step, head?_append_quiet hdash, hslash]
  | raw n => simp only [step, h.fence]
  | closing d =>
    cases d with
    | zero => rfl
    | succ d => rfl
  | rawOpening n left =>
    cases left with
    | zero => rfl
    | succ left => rfl
  | rawClosing left =>
    cases left with
    | zero => rfl
    | succ left => rfl
  | line | opening | string | stringEscape | char | charEscape | quoted => rfl

theorem scan_quiet (h : Quiet after) (m : Mode) (t u : Text) (hdash : u = [] → after.head? ≠ some '-') :
    scan m t (u ++ after) = scan m t u := by
  induction t generalizing m with
  | nil => rfl
  | cons c t ih =>
    have hstep : step m c (t ++ (u ++ after)) = step m c (t ++ u) := by
      rw [← List.append_assoc]
      apply step_quiet h
      intro ht
      exact hdash (List.append_eq_nil_iff.mp ht).2
    rw [scan_cons, scan_cons, hstep, ih]

/-- The last character of a text is a sign of code that a `-` behind it makes a comment's. -/
def Touches (m : Mode) (t : Text) : Prop :=
  (t.getLast? = some '-' ∨ t.getLast? = some '/') ∧ (scan m t.dropLast t.getLast?.toList).2.isCode = true

instance : Decidable (Touches m t) := instDecidableAnd

theorem touches_append : Touches m (t ++ [c]) ↔ (c = '-' ∨ c = '/') ∧ (scan m t [c]).2.isCode = true := by
  simp [Touches]

theorem step_kept {rest : Text} (h : ¬ ((c = '-' ∨ c = '/') ∧ m.isCode = true)) :
    (step m c rest).1 = (step m c []).1 := by
  cases m with
  | code inWord =>
    have hc : c ≠ '-' ∧ c ≠ '/' := by
      constructor
      · intro hc
        exact h ⟨Or.inl hc, rfl⟩
      · intro hc
        exact h ⟨Or.inr hc, rfl⟩
    have hkept : ∀ rest, (codeStep inWord c rest).1 = true := by
      intro rest
      simp only [codeStep, hc.1, hc.2, false_and, if_false]
      repeat' split
      all_goals rfl
    exact (hkept rest).trans (hkept []).symm
  | block d =>
    simp only [step]
    repeat' split
    all_goals rfl
  | raw n =>
    simp only [step]
    repeat' split
    all_goals rfl
  | closing d =>
    cases d with
    | zero => rfl
    | succ d => rfl
  | rawOpening n left =>
    cases left with
    | zero => rfl
    | succ left => rfl
  | rawClosing left =>
    cases left with
    | zero => rfl
    | succ left => rfl
  | line | opening | string | stringEscape | char | charEscape | quoted => rfl

theorem scan_untouched (h : Quiet after) (htouch : ¬ Touches m t) : (scan m t after).1 = (scan m t []).1 := by
  cases t using List.reverseRecOn with
  | nil => rfl
  | append_singleton t c =>
    rw [touches_append] at htouch
    have hbefore : scan m t (c :: after) = scan m t [c] := by
      apply scan_quiet h m t [c]
      intro hc
      cases hc
    have hkept : (step (scan m t [c]).2 c after).1 = (step (scan m t [c]).2 c []).1 := step_kept htouch
    rw [scan_append, scan_append]
    simp only [List.singleton_append, List.append_nil, scan_cons, scan_nil, List.nil_append, hbefore, hkept]

theorem scan_touched (h : Quiet after) (hdash : after.head? = some '-') (htouch : Touches m t) :
    ∃ c, isSpace c = false ∧ (scan m t []).1 = (scan m t after).1 ++ [c] := by
  cases t using List.reverseRecOn with
  | nil => exact absurd htouch.1 (by simp)
  | append_singleton t c =>
    rw [touches_append] at htouch
    have hbefore : scan m t (c :: after) = scan m t [c] := by
      apply scan_quiet h m t [c]
      intro hc
      cases hc
    cases hmode : (scan m t [c]).2 with
    | code inWord =>
      refine ⟨c, ?_, ?_⟩
      · cases htouch.1 with
        | inl hc => rw [hc]; decide
        | inr hc => rw [hc]; decide
      · rw [scan_append, scan_append]
        simp only [List.singleton_append, List.append_nil, scan_cons, scan_nil, List.nil_append, hbefore, hmode]
        cases htouch.1 with
        | inl hc => simp [step, codeStep, hc, hdash]
        | inr hc => simp [step, codeStep, hc, hdash]
    | _ => simp [hmode, Mode.isCode] at htouch

theorem step_newline (h : m.closed = true) : step m '\n' t = (true, fresh) := by
  cases m with
  | code inWord => simp [step, codeStep, fresh, isIdRest, isLetterLike, isSubScript]
  | line => rfl
  | _ => cases h

theorem scan_newline (h : m.closed = true) : scan m ('\n' :: t) after = scan fresh ('\n' :: t) after := by
  have hfresh : step fresh '\n' (t ++ after) = (true, fresh) := step_newline rfl
  rw [scan_cons, scan_cons, step_newline h, hfresh]

theorem scan_line_of_not_mem (h : '\n' ∉ t) : scan .line t after = ([], .line) := by
  induction t with
  | nil => rfl
  | cons c t ih =>
    have hc : c ≠ '\n' := fun hc => h (by simp [hc])
    have hrest : '\n' ∉ t := fun ht => h (List.mem_cons_of_mem _ ht)
    rw [scan_cons]
    simp only [step, hc, if_false]
    rw [ih hrest]
    rfl

end EvoHarness.LeanComments
