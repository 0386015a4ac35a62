import Mathlib.Data.List.Infix
import Mathlib.Tactic.Common

/-! Where one list occurs in another: `str.count` and `str.replace` pass over an occurrence once they
have seen it, so that they miss those which overlap it. -/
namespace EvoHarness.Occurrences
variable {α : Type*}

/-- The one place where the mark stands is between `a` and `b`, overlapping places counted. -/
def OnlyAt (mark t a b : List α) : Prop := ∀ p q, t = p ++ mark ++ q ↔ p = a ∧ q = b

def Overlaps (mark t : List α) : Prop :=
  ∃ u v w, u ≠ [] ∧ v ≠ [] ∧ mark = u ++ v ∧ mark = v ++ w ∧ u ++ v ++ w <:+: t

section Places
variable {mark t a b u q : List α}

/-- A mark that stands again `u` further on, and not beyond its own end, starts inside itself. -/
theorem exists_border (hshift : mark ++ b = u ++ (mark ++ q)) (hu : u ≠ []) (hrest : ¬ mark <:+: b) :
    ∃ v w, v ≠ [] ∧ mark = u ++ v ∧ mark = v ++ w ∧ b = w ++ q := by
  rw [List.append_eq_append_iff] at hshift
  cases hshift with
  | inl hbeyond =>
    obtain ⟨u', rfl, hb⟩ := hbeyond
    exact absurd ⟨u', q, by rw [hb]; simp⟩ hrest
  | inr hwithin =>
    obtain ⟨v, hmark, hv⟩ := hwithin
    rw [List.append_eq_append_iff] at hv
    cases hv with
    | inl hshorter =>
      obtain ⟨w, hw, -⟩ := hshorter
      have hlen : u.length = 0 := by
        have h1 := congrArg List.length hmark
        have h2 := congrArg List.length hw
        rw [List.length_append] at h1 h2
        omega
      exact absurd (List.length_eq_zero_iff.mp hlen) hu
    | inr hlonger =>
      obtain ⟨w, hw, hb⟩ := hlonger
      refine ⟨v, w, ?_, hmark, hw, hb⟩
      intro hnil
      have hself : w = mark := by rw [hw, hnil, List.nil_append]
      exact hrest ⟨[], q, by rw [hb, hself, List.nil_append]⟩

/-- A mark whose first place is after `a` and which is not in the rest `b`: it stands there alone
unless it overlaps itself. -/
theorem onlyAt_iff (hsplit : t = a ++ mark ++ b) (hfirst : ∀ p q, t = p ++ mark ++ q → a.length ≤ p.length)
    (hrest : ¬ mark <:+: b) : OnlyAt mark t a b ↔ ¬ Overlaps mark t := by
  constructor
  · intro honly hover
    obtain ⟨u, v, w, hu, hv, hmark, hmark', p, s, hpart⟩ := hover
    have hone := (honly p (w ++ s)).mp (by rw [← hpart, hmark]; simp)
    have htwo := (honly (p ++ u) s).mp (by rw [← hpart, hmark']; simp)
    rw [← hone.1] at htwo
    exact hu (List.append_right_eq_self.mp htwo.1)
  · intro hover p q
    constructor
    · intro hpq
      have hle := hfirst p q hpq
      rw [hsplit, List.append_assoc, List.append_assoc] at hpq
      have hstart : a = p.take a.length := by
        have htake := congrArg (List.take a.length) hpq
        rwa [List.take_left, List.take_append_of_le_length hle] at htake
      have hlater : p = a ++ p.drop a.length := by
        conv_lhs => rw [← List.take_append_drop a.length p, ← hstart]
      rw [hlater, List.append_assoc] at hpq
      have hshift := List.append_cancel_left hpq
      by_cases hu : p.drop a.length = []
      · rw [hu, List.nil_append] at hshift
        rw [hu, List.append_nil] at hlater
        exact ⟨hlater, (List.append_cancel_left hshift).symm⟩
      · obtain ⟨v, w, hv, hmark, hmark', hb⟩ := exists_border hshift hu hrest
        refine absurd ⟨p.drop a.length, v, w, hu, hv, hmark, hmark', a, q, ?_⟩ hover
        rw [hsplit, hb, hmark]
        simp
    · rintro ⟨rfl, rfl⟩
      exact hsplit

end Places

section Counting
variable [DecidableEq α]

/-- Occurrences that start after the one before has ended; `skip` elements still belong to that one. -/
def countFrom (mark : List α) : ℕ → List α → ℕ
  | _, [] => 0
  | skip + 1, _ :: t => countFrom mark skip t
  | 0, x :: t =>
    if mark <+: x :: t then countFrom mark (mark.length - 1) t + 1 else countFrom mark 0 t

def count (mark t : List α) : ℕ := countFrom mark 0 t

/-- `t.replace(mark, new, 1)`, for a mark that is not empty. -/
def replaceFirst (mark new : List α) : List α → List α
  | [] => []
  | x :: t => if mark <+: x :: t then new ++ (x :: t).drop mark.length else x :: replaceFirst mark new t

variable {mark t : List α}

theorem countFrom_skip (mark : List α) (skip : ℕ) (t : List α) :
    countFrom mark skip t = countFrom mark 0 (t.drop skip) := by
  induction skip generalizing t with
  | zero => rfl
  | succ skip ih =>
    cases t with
    | nil => simp [countFrom]
    | cons x t => simpa [countFrom] using ih t

theorem count_found (h : mark ≠ []) {x : α} (hx : mark <+: x :: t) :
    count mark (x :: t) = count mark ((x :: t).drop mark.length) + 1 := by
  have hlength : 0 < mark.length := List.length_pos_iff.mpr h
  have hdrop : (x :: t).drop mark.length = t.drop (mark.length - 1) := by
    rw [← Nat.succ_pred_eq_of_pos hlength, List.drop_succ_cons]
    rfl
  rw [count, countFrom, if_pos hx, countFrom_skip, hdrop, count]

theorem count_passed {x : α} (hx : ¬ mark <+: x :: t) : count mark (x :: t) = count mark t := by
  rw [count, countFrom, if_neg hx, count]

example : count "aa".toList "aaa".toList = 1 ∧ count "aa".toList "aaaa".toList = 2 := by decide

theorem not_infix_of_count (h : mark ≠ []) (hcount : count mark t = 0) : ¬ mark <:+: t := by
  induction t with
  | nil => simpa using h
  | cons x t ih =>
    have hx : ¬ mark <+: x :: t := by
      intro hx
      rw [count_found h hx] at hcount
      omega
    rw [count_passed hx] at hcount
    rw [List.infix_cons_iff]
    exact not_or.mpr ⟨hx, ih hcount⟩

/-- The one occurrence that is counted: nothing starts before it, nothing stands after it, and it is
the one that is replaced. -/
theorem exists_of_count (h : mark ≠ []) (hcount : count mark t = 1) :
    ∃ a b, t = a ++ mark ++ b ∧ (∀ p q, t = p ++ mark ++ q → a.length ≤ p.length) ∧ ¬ mark <:+: b ∧
      ∀ new, replaceFirst mark new t = a ++ new ++ b := by
  induction t with
  | nil => exact absurd hcount (by simp [count, countFrom])
  | cons x t ih =>
    by_cases hx : mark <+: x :: t
    · rw [count_found h hx] at hcount
      have hrest := not_infix_of_count h (Nat.succ.inj hcount)
      refine ⟨[], (x :: t).drop mark.length, ?_, fun _ _ _ => Nat.zero_le _, hrest, fun new => ?_⟩
      · rw [List.nil_append]
        exact (List.prefix_iff_eq_append.mp hx).symm
      · rw [replaceFirst, if_pos hx, List.nil_append]
    · rw [count_passed hx] at hcount
      obtain ⟨a, b, rfl, hfirst, hrest, hreplace⟩ := ih hcount
      refine ⟨x :: a, b, by simp, ?_, hrest, fun new => ?_⟩
      · intro p q hpq
        cases p with
        | nil => exact absurd ⟨q, hpq.symm⟩ hx
        | cons y p =>
          have htail := hfirst p q (List.cons.inj (by simpa using hpq)).2
          simpa using htail
      · rw [replaceFirst, if_neg hx, hreplace]
        simp

end Counting

end EvoHarness.Occurrences
