import EvoHarness.Library.Finditer

/-! Physical lines: a text laid out as lines, the line a position stands on, and the
decimal numbers that name lines. -/
namespace EvoHarness.PyText

def unlines (lines : List Text) : Text := lines.flatMap (· ++ ['\n'])

def lineNumber (before : Text) : ℕ := before.count '\n' + 1

def innerBreaks (lines : List Text) : ℕ := (lines.map (·.count '\n')).sum

variable {t : Text} {lines more : List Text}

@[simp] theorem unlines_nil : unlines [] = [] := rfl

theorem unlines_cons : unlines (t :: lines) = t ++ '\n' :: unlines lines := by
  simp [unlines]

theorem unlines_append : unlines (lines ++ more) = unlines lines ++ unlines more := List.flatMap_append

@[simp] theorem innerBreaks_nil : innerBreaks [] = 0 := rfl

@[simp] theorem innerBreaks_cons : innerBreaks (t :: lines) = t.count '\n' + innerBreaks lines := by
  simp [innerBreaks]

theorem innerBreaks_append : innerBreaks (lines ++ more) = innerBreaks lines + innerBreaks more := by
  simp [innerBreaks]

theorem innerBreaks_eq_zero : innerBreaks lines = 0 ↔ ∀ line ∈ lines, '\n' ∉ line := by
  simp [innerBreaks, List.sum_eq_zero_iff, List.count_eq_zero]

theorem lineNumber_unlines : lineNumber (unlines lines) = lines.length + innerBreaks lines + 1 := by
  unfold lineNumber
  induction lines with
  | nil => rfl
  | cons t lines ih =>
    rw [unlines_cons, List.count_append, List.count_cons_self, List.length_cons, innerBreaks_cons]
    omega

theorem join_append_blank (lines : List Text) : join ['\n'] (lines ++ [[]]) = unlines lines := by
  induction lines with
  | nil => rfl
  | cons t lines ih =>
    cases lines with
    | nil => simp [join, unlines_cons]
    | cons u lines =>
      have hjoin : join ['\n'] (t :: u :: lines ++ [[]]) = t ++ ['\n'] ++ join ['\n'] (u :: lines ++ [[]]) := rfl
      rw [hjoin, ih, unlines_cons (t := t), List.append_assoc, List.singleton_append]

theorem unlines_eq_join (h : lines ≠ []) : unlines lines = join ['\n'] lines ++ ['\n'] := by
  induction lines with
  | nil => exact absurd rfl h
  | cons ln lines ih =>
    cases lines with
    | nil => simp [unlines_cons, join]
    | cons k lines =>
      rw [unlines_cons, ih (List.cons_ne_nil k lines), join]
      simp

theorem join_append_lines (hl : lines ≠ []) (hk : more ≠ []) :
    join ['\n'] (lines ++ more) = join ['\n'] lines ++ '\n' :: join ['\n'] more := by
  induction lines with
  | nil => exact absurd rfl hl
  | cons ln lines ih =>
    cases lines with
    | nil =>
      cases more with
      | nil => exact absurd rfl hk
      | cons k more => simp [join]
    | cons l lines =>
      have hjoin : join ['\n'] (ln :: l :: lines ++ more) = ln ++ ['\n'] ++ join ['\n'] (l :: lines ++ more) := rfl
      rw [hjoin, ih (List.cons_ne_nil l lines), join]
      simp

/-- What stands up to a character that is not white space survives `rstrip`. -/
theorem rstrip_keeps {c : Char} (before after : Text) (hc : isSpace c = false) :
    ∃ rest, rstrip (before ++ c :: after) = before ++ c :: rest := by
  have hreverse : (before ++ c :: after).reverse = after.reverse ++ c :: before.reverse := by simp
  unfold rstrip
  rw [hreverse, List.dropWhile_append]
  split
  · rw [List.dropWhile_cons_of_neg (by simp [hc])]
    exact ⟨[], by simp⟩
  · exact ⟨(after.reverse.dropWhile isSpace).reverse, by simp⟩

theorem splitlines_unbroken : ∀ line ∈ splitlines t, '\n' ∉ line := by
  have hfrom : ∀ (t line : Text), '\n' ∉ line → ∀ l ∈ splitlinesFrom line t, '\n' ∉ l := by
    intro t line
    induction line, t using splitlinesFrom.induct with
    | case1 => simp [splitlinesFrom]
    | case2 line hne =>
      intro hline l hl
      rw [splitlinesFrom, if_neg hne] at hl
      rw [List.mem_singleton.mp hl]
      exact hline
    | case3 line c hbreak =>
      intro hline l hl
      rw [splitlinesFrom, if_pos hbreak] at hl
      rw [List.mem_singleton.mp hl]
      exact hline
    | case4 line c hbreak =>
      intro hline l hl
      rw [splitlinesFrom, if_neg hbreak] at hl
      rw [List.mem_singleton.mp hl]
      have hc : '\n' ≠ c := by
        intro h
        rw [← h] at hbreak
        exact hbreak (by decide)
      simp [hline, hc]
    | case5 line c d t hreturn ih =>
      intro hline l hl
      rw [splitlinesFrom, if_pos hreturn] at hl
      cases List.mem_cons.mp hl with
      | inl h =>
        rw [h]
        exact hline
      | inr h => exact ih (by simp) l h
    | case6 line c d t hreturn hbreak ih =>
      intro hline l hl
      rw [splitlinesFrom, if_neg hreturn, if_pos hbreak] at hl
      cases List.mem_cons.mp hl with
      | inl h =>
        rw [h]
        exact hline
      | inr h => exact ih (by simp) l h
    | case7 line c d t hreturn hbreak ih =>
      intro hline l hl
      rw [splitlinesFrom, if_neg hreturn, if_neg hbreak] at hl
      have hc : '\n' ≠ c := by
        intro h
        rw [← h] at hbreak
        exact hbreak (by decide)
      exact ih (by simp [hline, hc]) l hl
  exact hfrom t [] (by simp)

/-- The zeros of the Unicode digits `\d` matches: each begins a run of ten. -/
def decimalZeros : List ℕ :=
  [48, 1632, 1776, 1984, 2406, 2534, 2662, 2790, 2918, 3046, 3174, 3302, 3430, 3558, 3664, 3792, 3872, 4160, 4240,
    6112, 6160, 6470, 6608, 6784, 6800, 6992, 7088, 7232, 7248, 42528, 43216, 43264, 43472, 43504, 43600, 44016,
    65296, 66720, 68912, 69734, 69872, 69942, 70096, 70384, 70736, 70864, 71248, 71360, 71472, 71904, 72016, 72784,
    73040, 73120, 92768, 92864, 93008, 120782, 120792, 120802, 120812, 120822, 123200, 123632, 125264, 130032]

def decimalValue (c : Char) : Option ℕ :=
  (decimalZeros.find? fun z => z ≤ c.toNat ∧ c.toNat < z + 10).map (c.toNat - ·)

def isDecimal (c : Char) : Bool := (decimalValue c).isSome

def intOf (digits : Text) : ℕ := digits.foldl (fun n c => 10 * n + (decimalValue c).getD 0) 0

theorem decimalValue_digit {c : Char} (hc : c.isDigit = true) : decimalValue c = some (c.toNat - 48) := by
  have hrange : 48 ≤ c.toNat ∧ c.toNat < 58 := by
    simp only [Char.isDigit, Bool.and_eq_true, decide_eq_true_eq] at hc
    have hlow : (48 : UInt32).toNat ≤ c.val.toNat := hc.1
    have hhigh : c.val.toNat ≤ (57 : UInt32).toNat := hc.2
    have hnat : c.toNat = c.val.toNat := rfl
    have h48 : (48 : UInt32).toNat = 48 := rfl
    have h57 : (57 : UInt32).toNat = 57 := rfl
    omega
  unfold decimalValue decimalZeros
  rw [List.find?_cons_of_pos (by simp; omega)]
  rfl

theorem isDecimal_toDigits (n : ℕ) : ∀ c ∈ Nat.toDigits 10 n, isDecimal c = true := by
  intro c hc
  have hdigit := decimalValue_digit (Nat.isDigit_of_mem_toDigits (by decide) (by decide) hc)
  rw [isDecimal, hdigit]
  rfl

theorem intOf_toDigits (n : ℕ) : intOf (Nat.toDigits 10 n) = n := by
  have hfold : ∀ (digits : Text) (start : ℕ), (∀ c ∈ digits, c.isDigit = true) →
      digits.foldl (fun n c => 10 * n + (decimalValue c).getD 0) start = Nat.ofDigitChars 10 digits start := by
    intro digits
    induction digits with
    | nil => intro start _; rfl
    | cons c digits ih =>
      intro start hdigits
      rw [List.forall_mem_cons] at hdigits
      rw [List.foldl_cons, decimalValue_digit hdigits.1, Nat.ofDigitChars_cons, ih _ hdigits.2]
      rfl
  unfold intOf
  rw [hfold _ 0 fun c hc => Nat.isDigit_of_mem_toDigits (by decide) (by decide) hc]
  exact Nat.ofDigitChars_toDigits (by decide) (by decide)

end EvoHarness.PyText
