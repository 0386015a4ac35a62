import Mathlib

/-! Python's text operations on code points: `str.isspace` white space, `strip`,
`split`, `splitlines`, `join`, the line ends of text mode, and cutting at the first
occurrence of a mark. -/
namespace EvoHarness.PyText

abbrev Text := List Char

instance : LawfulBEq Text := List.instLawfulBEq

def isSpace (c : Char) : Bool :=
  let n := c.toNat
  (9 ≤ n && n ≤ 13) || (28 ≤ n && n ≤ 32) || n == 133 || n == 160 || n == 5760 ||
    (8192 ≤ n && n ≤ 8202) || n == 8232 || n == 8233 || n == 8239 || n == 8287 || n == 12288

def lstrip (t : Text) : Text := t.dropWhile isSpace
def rstrip (t : Text) : Text := (t.reverse.dropWhile isSpace).reverse
def strip (t : Text) : Text := rstrip (lstrip t)

def stripChar (c : Char) (t : Text) : Text :=
  (((t.dropWhile (· == c)).reverse).dropWhile (· == c)).reverse

/-- `t.split()`: `word` holds the characters of the word being read. -/
def splitFrom : Text → Text → List Text
  | word, [] => if word = [] then [] else [word]
  | word, c :: t =>
    if isSpace c then
      (if word = [] then splitFrom [] t else word :: splitFrom [] t)
    else splitFrom (word ++ [c]) t

def split (t : Text) : List Text := splitFrom [] t

def join (sep : Text) : List Text → Text
  | [] => []
  | [t] => t
  | t :: u :: ts => t ++ sep ++ join sep (u :: ts)

def squeeze (t : Text) : Text := join [' '] (split t)

/-- `t.split(None, 1)`: the first word, and what follows the white space after it. -/
def firstWord (t : Text) : Text := (lstrip t).takeWhile (!isSpace ·)
def afterWord (t : Text) : Text := lstrip ((lstrip t).dropWhile (!isSpace ·))

/-- `t.split(mark, 1)` when `mark` occurs: what stands before and after it. -/
def cut (mark : Text) : Text → Option (Text × Text)
  | [] => if mark = [] then some ([], []) else none
  | c :: t =>
    if mark.isPrefixOf (c :: t) then some ([], (c :: t).drop mark.length)
    else (cut mark t).map fun (a, b) => (c :: a, b)

def contains (mark t : Text) : Bool := (cut mark t).isSome

def isLineBreak (c : Char) : Bool :=
  let n := c.toNat
  (10 ≤ n && n ≤ 13) || (28 ≤ n && n ≤ 30) || n == 133 || n == 8232 || n == 8233

def splitlinesFrom : Text → Text → List Text
  | line, [] => if line = [] then [] else [line]
  | line, [c] => if isLineBreak c then [line] else [line ++ [c]]
  | line, c :: d :: t =>
    if c = '\r' ∧ d = '\n' then line :: splitlinesFrom [] t
    else if isLineBreak c then line :: splitlinesFrom [] (d :: t)
    else splitlinesFrom (line ++ [c]) (d :: t)

def splitlines (t : Text) : List Text := splitlinesFrom [] t

def universalNewlines : Text → Text
  | [] => []
  | [c] => if c = '\r' then ['\n'] else [c]
  | c :: d :: t =>
    if c = '\r' then
      if d = '\n' then '\n' :: universalNewlines t else '\n' :: universalNewlines (d :: t)
    else c :: universalNewlines (d :: t)

def isBlank (t : Text) : Bool := t.all isSpace

def NoSpace (t : Text) : Prop := ∀ c ∈ t, isSpace c = false

instance (t : Text) : Decidable (NoSpace t) := List.decidableBAll _ t

theorem cut_eq {mark t a b : Text} (h : cut mark t = some (a, b)) : t = a ++ mark ++ b := by
  induction t generalizing a b with
  | nil =>
    simp only [cut] at h
    split at h
    · simp_all
    · cases h
  | cons c t ih =>
    simp only [cut] at h
    split at h
    · rename_i hmark
      cases h
      obtain ⟨rest, hrest⟩ := List.isPrefixOf_iff_prefix.mp hmark
      rw [← hrest, List.drop_left, List.nil_append]
    · obtain ⟨p, hp, hpair⟩ := Option.map_eq_some_iff.mp h
      cases hpair
      rw [List.cons_append, List.cons_append, ← ih hp]

theorem universalNewlines_of_no_return {t : Text} (h : '\r' ∉ t) : universalNewlines t = t := by
  induction t with
  | nil => rfl
  | cons c t ih =>
    have hc : c ≠ '\r' := fun hc => h (by simp [hc])
    have hrest : '\r' ∉ t := fun ht => h (List.mem_cons_of_mem _ ht)
    cases t with
    | nil => simp [universalNewlines, hc]
    | cons d t => rw [universalNewlines, if_neg hc, ih hrest]

theorem no_return_universalNewlines : ∀ t : Text, '\r' ∉ universalNewlines t
  | [] => by simp [universalNewlines]
  | [c] => by
    by_cases hc : c = '\r'
    · simp [universalNewlines, hc]
    · simp [universalNewlines, hc, Ne.symm hc]
  | c :: d :: t => by
    have htail := no_return_universalNewlines t
    have hnext := no_return_universalNewlines (d :: t)
    by_cases hc : c = '\r'
    · by_cases hd : d = '\n'
      · simp [universalNewlines, hc, hd, htail]
      · simp [universalNewlines, hc, hd, hnext]
    · simp [universalNewlines, hc, Ne.symm hc, hnext]

theorem universalNewlines_append {u : Text} (hu : '\r' ∉ u) (hhead : u.head? ≠ some '\n') :
    ∀ t : Text, universalNewlines (t ++ u) = universalNewlines t ++ u
  | [] => universalNewlines_of_no_return hu
  | [c] => by
    cases u with
    | nil => simp
    | cons d u =>
      have hd : d ≠ '\n' := fun h => hhead (congrArg some h)
      by_cases hc : c = '\r'
      · simp [universalNewlines, hc, hd, universalNewlines_of_no_return hu]
      · simp [universalNewlines, hc, universalNewlines_of_no_return hu]
  | c :: d :: t => by
    have htail := universalNewlines_append hu hhead t
    have hnext := universalNewlines_append hu hhead (d :: t)
    rw [List.cons_append] at hnext
    by_cases hc : c = '\r'
    · by_cases hd : d = '\n'
      · simp [universalNewlines, hc, hd, htail]
      · simp [universalNewlines, hc, hd, hnext]
    · simp [universalNewlines, hc, hnext]

theorem splitlines_append {t : Text} {c : Char} (u : Text) (ht : ∀ d ∈ t, isLineBreak d = false)
    (hc : isLineBreak c = true) (hreturn : c ≠ '\r') : splitlines (t ++ c :: u) = t :: splitlines u := by
  have hfrom : ∀ (t line : Text), (∀ d ∈ t, isLineBreak d = false) →
      splitlinesFrom line (t ++ c :: u) = (line ++ t) :: splitlinesFrom [] u := by
    intro t
    induction t with
    | nil =>
      intro line _
      cases u with
      | nil => simp [splitlinesFrom, hc]
      | cons d u => simp [splitlinesFrom, hc, hreturn]
    | cons d t ih =>
      intro line ht
      rw [List.forall_mem_cons] at ht
      have hd : d ≠ '\r' := by
        intro h
        rw [h] at ht
        exact absurd ht.1 (by decide)
      have hrest := ih (line ++ [d]) ht.2
      rw [List.append_assoc, List.singleton_append] at hrest
      rw [← hrest]
      cases t with
      | nil => simp [splitlinesFrom, ht.1, hd]
      | cons e t => simp [splitlinesFrom, ht.1, hd]
  exact hfrom t [] ht

theorem splitlines_single {t : Text} (ht : ∀ d ∈ t, isLineBreak d = false) (hne : t ≠ []) : splitlines t = [t] := by
  have hfrom : ∀ (t line : Text), (∀ d ∈ t, isLineBreak d = false) → t ≠ [] → splitlinesFrom line t = [line ++ t] := by
    intro t
    induction t with
    | nil =>
      intro line _ h
      exact absurd rfl h
    | cons d t ih =>
      intro line ht _
      rw [List.forall_mem_cons] at ht
      have hd : d ≠ '\r' := by
        intro h
        rw [h] at ht
        exact absurd ht.1 (by decide)
      cases t with
      | nil => simp [splitlinesFrom, ht.1]
      | cons e t =>
        have hrest := ih (line ++ [d]) ht.2 (by simp)
        rw [List.append_assoc, List.singleton_append] at hrest
        rw [← hrest]
        simp [splitlinesFrom, ht.1, hd]
  exact hfrom t [] ht hne

example : splitlines "a\r\nb\n\nc".toList = ["a".toList, "b".toList, [], "c".toList] := by decide

end EvoHarness.PyText
