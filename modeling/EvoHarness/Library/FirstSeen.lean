import Mathlib

/-! Lists gathered one after the other, each element kept where it is first seen. -/
namespace EvoHarness.FirstSeen
variable {α : Type*} [BEq α] [LawfulBEq α]

def add (seen : List α) (x : α) : List α := if x ∈ seen then seen else seen ++ [x]

def addAll (seen : List α) (l : List α) : List α := l.foldl add seen

variable {seen l p : List α} {x : α}

@[simp] theorem addAll_nil : addAll seen [] = seen := rfl

@[simp] theorem addAll_cons : addAll seen (x :: l) = addAll (add seen x) l := rfl

theorem addAll_append (m : List α) : addAll seen (l ++ m) = addAll (addAll seen l) m := List.foldl_append

@[simp] theorem mem_add {y : α} : y ∈ add seen x ↔ y ∈ seen ∨ y = x := by
  unfold add
  split
  · next h =>
    constructor
    · exact Or.inl
    · intro hy
      cases hy with
      | inl hy => exact hy
      | inr hy => exact hy ▸ h
  · rw [List.mem_append, List.mem_singleton]

theorem mem_addAll : x ∈ addAll seen l ↔ x ∈ seen ∨ x ∈ l := by
  induction l generalizing seen with
  | nil => simp
  | cons y l ih => rw [addAll_cons, ih, mem_add, List.mem_cons, or_assoc]

structure Added (seen l added : List α) : Prop where
  mem : ∀ x, x ∈ added ↔ x ∈ l ∧ x ∉ seen
  nodup : added.Nodup
  sorted : added.Pairwise fun x y => l.idxOf x < l.idxOf y

theorem exists_added (seen l : List α) : ∃ added, addAll seen l = seen ++ added ∧ Added seen l added := by
  induction l generalizing seen with
  | nil => exact ⟨[], by simp, by simp, List.nodup_nil, List.Pairwise.nil⟩
  | cons y l ih =>
    by_cases hy : y ∈ seen
    · obtain ⟨added, heq, hadded⟩ := ih seen
      refine ⟨added, by rw [addAll_cons, add, if_pos hy, heq], ?_, hadded.nodup, ?_⟩
      · intro x
        rw [hadded.mem, List.mem_cons]
        constructor
        · exact fun h => ⟨Or.inr h.1, h.2⟩
        · intro h
          cases h.1 with
          | inl hx => exact absurd (hx ▸ hy) h.2
          | inr hx => exact ⟨hx, h.2⟩
      · apply hadded.sorted.imp_of_mem
        intro a b ha hb hlt
        have hya : y ≠ a := fun h => ((hadded.mem a).mp ha).2 (h ▸ hy)
        have hyb : y ≠ b := fun h => ((hadded.mem b).mp hb).2 (h ▸ hy)
        rw [List.idxOf_cons_ne _ hya, List.idxOf_cons_ne _ hyb]
        omega
    · obtain ⟨added, heq, hadded⟩ := ih (seen ++ [y])
      have hnew : ∀ x ∈ added, y ≠ x := by
        intro x hx h
        exact ((hadded.mem x).mp hx).2 (by simp [h])
      refine ⟨y :: added, ?_, ?_, ?_, ?_⟩
      · rw [addAll_cons, add, if_neg hy, heq, List.append_assoc, List.singleton_append]
      · intro x
        rw [List.mem_cons, List.mem_cons, hadded.mem]
        constructor
        · intro h
          cases h with
          | inl h => exact ⟨Or.inl h, h ▸ hy⟩
          | inr h => exact ⟨Or.inr h.1, fun hs => h.2 (List.mem_append_left _ hs)⟩
        · intro h
          by_cases hx : x = y
          · exact Or.inl hx
          · right
            refine ⟨h.1.resolve_left hx, ?_⟩
            simp [h.2, hx]
      · exact List.nodup_cons.mpr ⟨fun h => hnew y h rfl, hadded.nodup⟩
      · rw [List.pairwise_cons]
        constructor
        · intro x hx
          rw [List.idxOf_cons_self, List.idxOf_cons_ne _ (hnew x hx)]
          omega
        · apply hadded.sorted.imp_of_mem
          intro a b ha hb hlt
          rw [List.idxOf_cons_ne _ (hnew a ha), List.idxOf_cons_ne _ (hnew b hb)]
          omega

theorem count_addAll (x : α) : (addAll seen l).count x = if x ∈ seen ∨ x ∉ l then seen.count x else 1 := by
  obtain ⟨added, heq, hadded⟩ := exists_added seen l
  rw [heq, List.count_append]
  split
  · next h =>
    have hnot : x ∉ added := by
      rw [hadded.mem]
      intro hx
      cases h with
      | inl h => exact hx.2 h
      | inr h => exact h hx.1
    rw [List.count_eq_zero_of_not_mem hnot, Nat.add_zero]
  · next h =>
    rw [not_or, not_not] at h
    have hmem : x ∈ added := (hadded.mem x).mpr ⟨h.2, h.1⟩
    rw [List.count_eq_zero_of_not_mem h.1, List.count_eq_one_of_mem hadded.nodup hmem]

/-- Which lists survive in their own order: a part of what was there already, and then new
elements in the order they are first seen in. -/
theorem sublist_addAll_iff (hp : p ⊆ l) : p.Sublist (addAll seen l) ↔ ∃ old new, p = old ++ new ∧
    old.Sublist seen ∧ (∀ x ∈ new, x ∉ seen) ∧ new.Pairwise fun x y => l.idxOf x < l.idxOf y := by
  obtain ⟨added, heq, hadded⟩ := exists_added seen l
  rw [heq, List.sublist_append_iff]
  constructor
  · intro h
    obtain ⟨old, new, hsplit, hold, hnew⟩ := h
    exact ⟨old, new, hsplit, hold, fun x hx => ((hadded.mem x).mp (hnew.subset hx)).2, hadded.sorted.sublist hnew⟩
  · intro h
    obtain ⟨old, new, hsplit, hold, hfresh, hsorted⟩ := h
    refine ⟨old, new, hsplit, hold, ?_⟩
    have hnodup : new.Nodup := hsorted.imp fun hlt heq => absurd hlt (by rw [heq]; exact lt_irrefl _)
    have hsubset : new ⊆ added := by
      intro x hx
      exact (hadded.mem x).mpr ⟨hp (by rw [hsplit]; exact List.mem_append_right _ hx), hfresh x hx⟩
    have : Std.Antisymm fun x y => l.idxOf x < l.idxOf y := ⟨fun a b hab hba => absurd hab (by omega)⟩
    exact List.sublist_of_subperm_of_pairwise (List.subperm_of_subset hnodup hsubset) hsorted hadded.sorted

end EvoHarness.FirstSeen
