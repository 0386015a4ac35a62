import Mathlib.Data.List.Pairwise

/-! Opening and closing positions paired by a stack: the pairs are nested or apart, and
the outermost of them stand one behind the other. -/
namespace EvoHarness.Brackets

/-- Events in order, `true` where something closes; a closing without an opening is passed
over. The pairs come in the order they close. -/
def pair : List ℕ → List (ℕ × Bool) → List (ℕ × ℕ)
  | _, [] => []
  | stack, (p, false) :: es => pair (p :: stack) es
  | [], (_, true) :: es => pair [] es
  | b :: stack, (p, true) :: es => (b, p) :: pair stack es

def outermost : List (ℕ × ℕ) → List (ℕ × ℕ)
  | [] => []
  | r :: rs => if rs.any fun q => q.1 ≤ r.1 && r.2 ≤ q.2 then outermost rs else r :: outermost rs

structure Ready (stack : List ℕ) (es : List (ℕ × Bool)) : Prop where
  ordered : es.Pairwise fun d e => d.1 ≤ e.1
  before : ∀ b ∈ stack, ∀ e ∈ es, b ≤ e.1
  stacked : stack.Pairwise fun b c => c ≤ b

variable {stack : List ℕ} {es : List (ℕ × Bool)} {p b : ℕ} {q r : ℕ × ℕ} {rs : List (ℕ × ℕ)}

theorem ready_nil (h : es.Pairwise fun d e => d.1 ≤ e.1) : Ready [] es :=
  ⟨h, by simp, List.Pairwise.nil⟩

theorem Ready.push (h : Ready stack ((p, false) :: es)) : Ready (p :: stack) es := by
  refine ⟨h.ordered.of_cons, ?_, ?_⟩
  · intro b hb e he
    cases List.mem_cons.mp hb with
    | inl hb =>
      rw [hb]
      exact List.rel_of_pairwise_cons h.ordered he
    | inr hb => exact h.before b hb e (List.mem_cons_of_mem _ he)
  · rw [List.pairwise_cons]
    exact ⟨fun c hc => h.before c hc _ List.mem_cons_self, h.stacked⟩

theorem Ready.skip (h : Ready [] ((p, true) :: es)) : Ready [] es := ready_nil h.ordered.of_cons

theorem Ready.pop (h : Ready (b :: stack) ((p, true) :: es)) : Ready stack es :=
  ⟨h.ordered.of_cons, fun c hc e he => h.before c (List.mem_cons_of_mem _ hc) e (List.mem_cons_of_mem _ he),
    h.stacked.of_cons⟩

theorem mem_pair (h : Ready stack es) (hq : q ∈ pair stack es) :
    q.1 ≤ q.2 ∧ (∃ e ∈ es, q.2 = e.1) ∧ (q.1 ∈ stack ∨ ∃ e ∈ es, q.1 = e.1) := by
  induction es generalizing stack with
  | nil => simp [pair] at hq
  | cons e es ih =>
    obtain ⟨p, closes⟩ := e
    cases closes with
    | false =>
      obtain ⟨hle, ⟨e, he, hq₂⟩, hq₁⟩ := ih h.push hq
      refine ⟨hle, ⟨e, List.mem_cons_of_mem _ he, hq₂⟩, ?_⟩
      cases hq₁ with
      | inl hmem =>
        cases List.mem_cons.mp hmem with
        | inl hp => exact Or.inr ⟨_, List.mem_cons_self, hp⟩
        | inr hs => exact Or.inl hs
      | inr hmem =>
        obtain ⟨d, hd, hq₁⟩ := hmem
        exact Or.inr ⟨d, List.mem_cons_of_mem _ hd, hq₁⟩
    | true =>
      cases stack with
      | nil =>
        obtain ⟨hle, ⟨e, he, hq₂⟩, hq₁⟩ := ih h.skip hq
        refine ⟨hle, ⟨e, List.mem_cons_of_mem _ he, hq₂⟩, ?_⟩
        cases hq₁ with
        | inl hmem => simp at hmem
        | inr hmem =>
          obtain ⟨d, hd, hq₁⟩ := hmem
          exact Or.inr ⟨d, List.mem_cons_of_mem _ hd, hq₁⟩
      | cons b stack =>
        cases List.mem_cons.mp hq with
        | inl heq =>
          rw [heq]
          exact ⟨h.before b List.mem_cons_self _ List.mem_cons_self, ⟨_, List.mem_cons_self, rfl⟩,
            Or.inl List.mem_cons_self⟩
        | inr hq =>
          obtain ⟨hle, ⟨e, he, hq₂⟩, hq₁⟩ := ih h.pop hq
          refine ⟨hle, ⟨e, List.mem_cons_of_mem _ he, hq₂⟩, ?_⟩
          cases hq₁ with
          | inl hmem => exact Or.inl (List.mem_cons_of_mem _ hmem)
          | inr hmem =>
            obtain ⟨d, hd, hq₁⟩ := hmem
            exact Or.inr ⟨d, List.mem_cons_of_mem _ hd, hq₁⟩

theorem pair_nested (h : Ready stack es) :
    (pair stack es).Pairwise fun r q => r.2 ≤ q.1 ∨ (q.1 ≤ r.1 ∧ r.2 ≤ q.2) := by
  induction es generalizing stack with
  | nil => exact List.Pairwise.nil
  | cons e es ih =>
    obtain ⟨p, closes⟩ := e
    cases closes with
    | false => exact ih h.push
    | true =>
      cases stack with
      | nil => exact ih h.skip
      | cons b stack =>
        rw [pair, List.pairwise_cons]
        refine ⟨fun q hq => ?_, ih h.pop⟩
        obtain ⟨_, ⟨e, he, hq₂⟩, hq₁⟩ := mem_pair h.pop hq
        have hclose : p ≤ e.1 := List.rel_of_pairwise_cons h.ordered he
        cases hq₁ with
        | inl hmem =>
          -- opened below the top of the stack: it holds the pair just closed
          have hopen : q.1 ≤ b := List.rel_of_pairwise_cons h.stacked hmem
          exact Or.inr ⟨hopen, by omega⟩
        | inr hmem =>
          obtain ⟨d, hd, hq₁⟩ := hmem
          have hlater : p ≤ d.1 := List.rel_of_pairwise_cons h.ordered hd
          exact Or.inl (by omega)

theorem mem_of_mem_outermost (hq : q ∈ outermost rs) : q ∈ rs := by
  induction rs with
  | nil => exact hq
  | cons r rs ih =>
    unfold outermost at hq
    split at hq
    · exact List.mem_cons_of_mem _ (ih hq)
    · cases List.mem_cons.mp hq with
      | inl heq =>
        rw [heq]
        exact List.mem_cons_self
      | inr hq => exact List.mem_cons_of_mem _ (ih hq)

theorem outermost_apart (h : rs.Pairwise fun r q => r.2 ≤ q.1 ∨ (q.1 ≤ r.1 ∧ r.2 ≤ q.2)) :
    (outermost rs).Pairwise fun r q => r.2 ≤ q.1 := by
  induction rs with
  | nil => exact List.Pairwise.nil
  | cons r rs ih =>
    obtain ⟨hr, hrest⟩ := List.pairwise_cons.mp h
    unfold outermost
    split
    · exact ih hrest
    · next hnot =>
      rw [List.pairwise_cons]
      refine ⟨fun q hq => ?_, ih hrest⟩
      have hmem := mem_of_mem_outermost hq
      cases hr q hmem with
      | inl hbefore => exact hbefore
      | inr hin =>
        refine (hnot ?_).elim
        rw [List.any_eq_true]
        exact ⟨q, hmem, by simp [hin]⟩

theorem exists_outermost (hr : r ∈ rs) : ∃ q ∈ outermost rs, q.1 ≤ r.1 ∧ r.2 ≤ q.2 := by
  induction rs generalizing r with
  | nil => simp at hr
  | cons s rs ih =>
    have hlater : ∀ q ∈ rs, ∃ o ∈ outermost (s :: rs), o.1 ≤ q.1 ∧ q.2 ≤ o.2 := by
      intro q hq
      obtain ⟨o, ho, hin⟩ := ih hq
      refine ⟨o, ?_, hin⟩
      unfold outermost
      split
      · exact ho
      · exact List.mem_cons_of_mem _ ho
    cases List.mem_cons.mp hr with
    | inr hr => exact hlater r hr
    | inl heq =>
      rw [heq]
      by_cases hany : (rs.any fun q => q.1 ≤ s.1 && s.2 ≤ q.2) = true
      · obtain ⟨q, hq, hin⟩ := List.any_eq_true.mp hany
        rw [Bool.and_eq_true, decide_eq_true_eq, decide_eq_true_eq] at hin
        obtain ⟨o, ho, hout⟩ := hlater q hq
        exact ⟨o, ho, by omega, by omega⟩
      · refine ⟨s, ?_, Nat.le_refl _, Nat.le_refl _⟩
        rw [outermost, if_neg hany]
        exact List.mem_cons_self

end EvoHarness.Brackets
