import EvoHarness.Library.Lines

/-! Texts put together with a separator and taken apart again, and the integers that `int` reads. -/
namespace EvoHarness.PyText

theorem join_singleton_eq (sep : Char) (ts : List Text) : join [sep] ts = [sep].intercalate ts := by
  induction ts with
  | nil => rfl
  | cons t ts ih =>
    cases ts with
    | nil => simp [join, List.intercalate]
    | cons u ts =>
      rw [join, ih]
      simp [List.intercalate, List.intersperse]

theorem splitOn_join_of_free {sep : Char} {ts : List Text} (hne : ts ≠ []) (h : ∀ t ∈ ts, sep ∉ t) :
    (join [sep] ts).splitOn sep = ts := by
  rw [join_singleton_eq, List.splitOn_intercalate _ h hne]

theorem length_splitOn_char (sep : Char) (t : Text) : (t.splitOn sep).length = t.count sep + 1 := by
  induction t with
  | nil => rfl
  | cons c t ih =>
    rw [List.splitOn_cons_eq_if_modifyHead]
    by_cases hc : c = sep
    · rw [if_pos (by simp [hc]), List.length_cons, ih, hc, List.count_cons_self]
    · rw [if_neg (by simp [hc]), List.length_modifyHead, ih, List.count_cons_of_ne hc]

theorem length_splitOn_join (sep : Char) {ts : List Text} (hne : ts ≠ []) :
    ((join [sep] ts).splitOn sep).length = ts.length + (ts.map (List.count sep)).sum := by
  induction ts with
  | nil => exact absurd rfl hne
  | cons t ts ih =>
    cases ts with
    | nil =>
      rw [length_splitOn_char, join]
      simp only [List.length_singleton, List.map_cons, List.map_nil, List.sum_cons, List.sum_nil]
      omega
    | cons u ts =>
      have hrest := ih (List.cons_ne_nil u ts)
      rw [length_splitOn_char] at hrest
      rw [length_splitOn_char, join, List.count_append, List.count_append, List.count_singleton_self]
      simp only [List.length_cons, List.map_cons, List.sum_cons] at hrest ⊢
      omega

theorem cut_at_char {sep : Char} {a : Text} (b : Text) (ha : sep ∉ a) : cut [sep] (a ++ sep :: b) = some (a, b) := by
  induction a with
  | nil => simp [cut]
  | cons c a ih =>
    rw [List.mem_cons, not_or] at ha
    rw [List.cons_append, cut, ih ha.2]
    simp [ha.1]

def partitionAt (sep : Char) (t : Text) : Text × Text := (cut [sep] t).getD (t, [])

def rpartitionAt (sep : Char) (t : Text) : Text × Text :=
  ((t.rdropWhile (· ≠ sep)).dropLast, t.rtakeWhile (· ≠ sep))

theorem partitionAt_append {sep : Char} {a : Text} (b : Text) (ha : sep ∉ a) :
    partitionAt sep (a ++ sep :: b) = (a, b) := by
  rw [partitionAt, cut_at_char b ha, Option.getD_some]

theorem rpartitionAt_append {sep : Char} (a : Text) {b : Text} (hb : sep ∉ b) :
    rpartitionAt sep (a ++ sep :: b) = (a, b) := by
  have hall : ∀ c ∈ b.reverse, decide (c ≠ sep) = true := by
    intro c hc
    exact decide_eq_true fun heq => hb (heq ▸ List.mem_reverse.mp hc)
  have hreverse : (a ++ sep :: b).reverse = b.reverse ++ sep :: a.reverse := by simp
  rw [rpartitionAt, List.rdropWhile, List.rtakeWhile, hreverse, List.dropWhile_append_of_pos hall,
    List.takeWhile_append_of_pos hall]
  simp

def digitsOf : Text → Option Text
  | [] => none
  | [c] => if isDecimal c then some [c] else none
  | c :: d :: t =>
    if isDecimal c then
      if d = '_' then (digitsOf t).map (c :: ·) else (digitsOf (d :: t)).map (c :: ·)
    else none

/-- `int(t)`, or `none` where it raises. The limit on the number of digits is left out. -/
def int? (t : Text) : Option ℤ :=
  match strip t with
  | '-' :: ds => (digitsOf ds).map fun ds => -(intOf ds : ℤ)
  | '+' :: ds => (digitsOf ds).map fun ds => (intOf ds : ℤ)
  | ds => (digitsOf ds).map fun ds => (intOf ds : ℤ)

theorem digitsOf_decimal {ds : Text} (hne : ds ≠ []) (h : ∀ c ∈ ds, isDecimal c = true) : digitsOf ds = some ds := by
  induction ds with
  | nil => exact absurd rfl hne
  | cons c ds ih =>
    rw [List.forall_mem_cons] at h
    cases ds with
    | nil => simp [digitsOf, h.1]
    | cons d ds =>
      have hd : d ≠ '_' := by
        intro hd
        have hdecimal := h.2 d List.mem_cons_self
        rw [hd] at hdecimal
        exact absurd hdecimal (by decide)
      rw [digitsOf, if_pos h.1, if_neg hd, ih (List.cons_ne_nil d ds) h.2, Option.map_some]

theorem not_space_of_isDigit {c : Char} (hc : c.isDigit = true) : isSpace c = false := by
  simp only [Char.isDigit, Bool.and_eq_true, decide_eq_true_eq] at hc
  have hlow : 48 ≤ c.toNat := hc.1
  have hhigh : c.toNat ≤ 57 := hc.2
  unfold isSpace
  simp only [Bool.or_eq_false_iff, Bool.and_eq_false_iff, decide_eq_false_iff_not, beq_eq_false_iff_ne]
  omega

theorem int?_decimal (n : ℕ) : int? (Nat.toDigits 10 n) = some (n : ℤ) := by
  have hdigit : ∀ c ∈ Nat.toDigits 10 n, c.isDigit = true := fun c hc =>
    Nat.isDigit_of_mem_toDigits (by decide) (by decide) hc
  have hne : Nat.toDigits 10 n ≠ [] := Nat.toDigits_ne_nil
  have hstrip : strip (Nat.toDigits 10 n) = Nat.toDigits 10 n := by
    have hkeep : ∀ t : Text, (∀ c ∈ t, c.isDigit = true) → t.dropWhile isSpace = t := by
      intro t ht
      cases t with
      | nil => rfl
      | cons c t => rw [List.dropWhile_cons_of_neg (by simp [not_space_of_isDigit (ht c List.mem_cons_self)])]
    rw [strip, lstrip, rstrip, hkeep _ hdigit,
      hkeep _ fun c hc => hdigit c (List.mem_reverse.mp hc), List.reverse_reverse]
  have hread := digitsOf_decimal hne (isDecimal_toDigits n)
  rw [int?, hstrip]
  split
  · next ds hds =>
    have := hdigit '-' (by rw [hds]; exact List.mem_cons_self)
    exact absurd this (by decide)
  · next ds hds =>
    have := hdigit '+' (by rw [hds]; exact List.mem_cons_self)
    exact absurd this (by decide)
  · rw [hread, Option.map_some, intOf_toDigits]

example : int? " -1_0\n".toList = some (-10) ∧ int? "1__0".toList = none := by decide

end EvoHarness.PyText
