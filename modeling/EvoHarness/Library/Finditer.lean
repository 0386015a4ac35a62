import EvoHarness.Library.PyText

/-! `re.finditer`: the leftmost matches of a pattern that do not overlap. -/
namespace EvoHarness.PyText
variable {α : Type}

/-- A pattern tried at the start of a text: what it captures, and what it leaves. -/
abbrev Matcher (α : Type) := Text → Option (α × Text)

/-- The matches from here on, after `skip` characters of the last one. -/
def findFrom (m : Matcher α) : ℕ → Text → List α
  | _, [] => []
  | skip + 1, _ :: t => findFrom m skip t
  | 0, c :: t =>
    match m (c :: t) with
    | some (a, rest) => a :: findFrom m (t.length - rest.length) t
    | none => findFrom m 0 t

def finditer (m : Matcher α) (t : Text) : List α := findFrom m 0 t

def Progress (m : Matcher α) : Prop := ∀ c t a rest, m (c :: t) = some (a, rest) → rest <:+ t

variable {m : Matcher α} {t rest : Text} {a : α} {c : Char} {k : ℕ}

@[simp] theorem finditer_nil : finditer m [] = [] := rfl

theorem findFrom_drop : findFrom m k t = finditer m (t.drop k) := by
  induction t generalizing k with
  | nil => cases k <;> rfl
  | cons c t ih =>
    cases k with
    | zero => rfl
    | succ k => exact ih

theorem drop_length_sub (h : rest <:+ t) : t.drop (t.length - rest.length) = rest := by
  obtain ⟨p, rfl⟩ := h
  simp

theorem finditer_match (hp : Progress m) (h : m (c :: t) = some (a, rest)) :
    finditer m (c :: t) = a :: finditer m rest := by
  have hdrop := drop_length_sub (hp _ _ _ _ h)
  rw [← hdrop, ← findFrom_drop]
  simp [finditer, findFrom, h]

theorem finditer_none (h : m (c :: t) = none) : finditer m (c :: t) = finditer m t := by
  simp [finditer, findFrom, h]

theorem finditer_eq_nil (h : ∀ s, s <:+ t → m s = none) : finditer m t = [] := by
  induction t with
  | nil => rfl
  | cons c t ih =>
    rw [finditer_none (h _ (List.suffix_refl _))]
    exact ih fun s hs => h s (hs.trans (List.suffix_cons c t))

theorem mem_finditer (h : a ∈ finditer m t) : ∃ s rest, m s = some (a, rest) := by
  have hfrom : ∀ (t : Text) (k : ℕ), a ∈ findFrom m k t → ∃ s rest, m s = some (a, rest) := by
    intro t
    induction t with
    | nil =>
      intro k h
      cases k <;> cases h
    | cons c t ih =>
      intro k h
      cases k with
      | succ k => exact ih k h
      | zero =>
        unfold findFrom at h
        split at h
        · next b rest hmatch =>
          cases List.mem_cons.mp h with
          | inl h => exact ⟨c :: t, rest, h ▸ hmatch⟩
          | inr h => exact ih _ h
        · exact ih _ h
  exact hfrom t 0 h

end EvoHarness.PyText
