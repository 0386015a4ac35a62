import Mathlib.Data.List.Forall2

/-! Lists that are gone through with their indices, up to the first element that fails. -/
namespace EvoHarness.Traversal

variable {α β ε : Type}

def gather (f : ℕ → α → Except ε β) : ℕ → List α → Except ε (List β)
  | _, [] => .ok []
  | i, x :: xs =>
    match f i x with
    | .error e => .error e
    | .ok y =>
      match gather f (i + 1) xs with
      | .error e => .error e
      | .ok ys => .ok (y :: ys)

variable {f : ℕ → α → Except ε β}

theorem gather_forall {xs : List α} {ys : List β} {i : ℕ} (h : gather f i xs = .ok ys) :
    List.Forall₂ (fun x y => ∃ j, f j x = .ok y) xs ys := by
  induction xs generalizing i ys with
  | nil =>
    cases h
    exact .nil
  | cons x xs ih =>
    rw [gather] at h
    split at h
    · exact nomatch h
    · next y hy =>
      split at h
      · exact nomatch h
      · next rest hrest =>
        cases h
        exact .cons ⟨i, hy⟩ (ih hrest)

theorem gather_of_forall₂ {xs : List α} {ys : List β} (h : List.Forall₂ (fun x y => ∀ i, f i x = .ok y) xs ys) (i : ℕ) :
    gather f i xs = .ok ys := by
  induction h generalizing i with
  | nil => rfl
  | cons hx _ ih => rw [gather, hx i, ih (i + 1)]

structure Sorts (f : ℕ → α → Except ε β) (P : ε → Prop) (refused : α → Bool) (escapes : α → Prop) : Prop where
  of_refused : ∀ i x, refused x = true → ∃ e, f i x = .error e ∧ P e
  of_escapes : ∀ i x, escapes x → ∃ e, f i x = .error e ∧ ¬P e
  of_read : ∀ i x, refused x = false → ¬escapes x → ∃ y, f i x = .ok y

variable {P : ε → Prop} {refused : α → Bool} {escapes : α → Prop}

theorem Sorts.of_cases (h : ∀ i x, (refused x = true ∧ ¬escapes x ∧ ∃ e, f i x = .error e ∧ P e) ∨
    (refused x = false ∧ escapes x ∧ ∃ e, f i x = .error e ∧ ¬P e) ∨
    (refused x = false ∧ ¬escapes x ∧ ∃ y, f i x = .ok y)) : Sorts f P refused escapes where
  of_refused i x hx := by
    rcases h i x with ⟨-, -, h⟩ | ⟨h, -⟩ | ⟨h, -⟩
    · exact h
    · exact absurd (hx.symm.trans h) (by decide)
    · exact absurd (hx.symm.trans h) (by decide)
  of_escapes i x hx := by
    rcases h i x with ⟨-, h, -⟩ | ⟨-, -, h⟩ | ⟨-, h, -⟩
    · exact absurd hx h
    · exact h
    · exact absurd hx h
  of_read i x hrefused hescapes := by
    rcases h i x with ⟨h, -⟩ | ⟨-, h, -⟩ | ⟨-, -, h⟩
    · exact absurd (hrefused.symm.trans h) (by decide)
    · exact absurd h hescapes
    · exact h

variable (h : Sorts f P refused escapes)
include h

/-- What is raised is among the errors of `P` when no element that escapes comes before the first one that is refused. -/
theorem Sorts.gather_iff (i : ℕ) (xs : List α) :
    (∀ e, gather f i xs = .error e → P e) ↔ ∀ x ∈ xs.takeWhile (fun x => !refused x), ¬escapes x := by
  induction xs generalizing i with
  | nil => exact iff_of_true (fun e he => nomatch he) fun x hx => nomatch hx
  | cons x xs ih =>
    cases hrefused : refused x with
    | true =>
      obtain ⟨e, he, hP⟩ := h.of_refused i x hrefused
      rw [gather, he, List.takeWhile_cons_of_neg (by simp [hrefused])]
      refine iff_of_true (fun e' he' => ?_) fun x hx => nomatch hx
      cases he'
      exact hP
    | false =>
      rw [List.takeWhile_cons_of_pos (by simp [hrefused]), List.forall_mem_cons, ← ih (i + 1), gather]
      by_cases hescapes : escapes x
      · obtain ⟨e, he, hP⟩ := h.of_escapes i x hescapes
        rw [he]
        exact iff_of_false (fun hall => hP (hall e rfl)) fun hall => hall.1 hescapes
      · obtain ⟨y, hy⟩ := h.of_read i x hrefused hescapes
        rw [hy]
        refine Iff.trans ?_ (and_iff_right hescapes).symm
        cases gather f (i + 1) xs with
        | error e => exact forall_congr' fun e' => by simp
        | ok ys => exact iff_of_true (fun e he => nomatch he) fun e he => nomatch he

theorem Sorts.gather_ok_iff (i : ℕ) (xs : List α) :
    (∃ ys, gather f i xs = .ok ys) ↔ ∀ x ∈ xs, refused x = false ∧ ¬escapes x := by
  induction xs generalizing i with
  | nil => exact iff_of_true ⟨[], rfl⟩ fun x hx => nomatch hx
  | cons x xs ih =>
    rw [List.forall_mem_cons, ← ih (i + 1), gather]
    cases hrefused : refused x with
    | true =>
      obtain ⟨e, he, -⟩ := h.of_refused i x hrefused
      rw [he]
      exact iff_of_false (fun ⟨_, hys⟩ => nomatch hys) fun hall => nomatch hall.1.1
    | false =>
      by_cases hescapes : escapes x
      · obtain ⟨e, he, -⟩ := h.of_escapes i x hescapes
        rw [he]
        exact iff_of_false (fun ⟨_, hys⟩ => nomatch hys) fun hall => hall.1.2 hescapes
      · obtain ⟨y, hy⟩ := h.of_read i x hrefused hescapes
        rw [hy]
        cases gather f (i + 1) xs with
        | error e => exact iff_of_false (fun ⟨_, hys⟩ => nomatch hys) fun ⟨_, _, hys⟩ => nomatch hys
        | ok ys => exact iff_of_true ⟨_, rfl⟩ ⟨⟨rfl, hescapes⟩, ys, rfl⟩

end EvoHarness.Traversal
