import Mathlib.Data.List.Basic
import Mathlib.Data.List.Perm.Subperm
import Mathlib.Logic.Relation

/-! Depth-first closure with a stack and a set of seen keys. The keys may be
coarser than the nodes as a type, but must tell the graph's nodes apart. -/
namespace EvoHarness.Search
open Relation
variable {α κ : Type*} [DecidableEq κ]

structure Scan (α κ : Type*) where
  seen : List κ
  frontier : List α

def push (key : α → κ) (s : Scan α κ) (x : α) : Scan α κ :=
  if key x ∈ s.seen then s else ⟨key x :: s.seen, x :: s.frontier⟩

def explore (key : α → κ) (next : α → List α) : ℕ → Scan α κ → Scan α κ
  | 0, s => s
  | n + 1, s =>
    match s.frontier with
    | [] => s
    | x :: rest => explore key next n ((next x).foldl (push key) ⟨s.seen, rest⟩)

def Edge (next : α → List α) (x y : α) : Prop := y ∈ next x

variable {key : α → κ} {next : α → List α} {nodes : List α}

theorem push_of_mem {s : Scan α κ} {x : α} (h : key x ∈ s.seen) : push key s x = s :=
  if_pos h

theorem push_of_not_mem {s : Scan α κ} {x : α} (h : key x ∉ s.seen) :
    push key s x = ⟨key x :: s.seen, x :: s.frontier⟩ :=
  if_neg h

theorem mem_seen_push {s : Scan α κ} {x : α} {k : κ} :
    k ∈ (push key s x).seen ↔ k = key x ∨ k ∈ s.seen := by
  by_cases h : key x ∈ s.seen
  · rw [push_of_mem h]
    exact ⟨Or.inr, fun hk => hk.elim (· ▸ h) id⟩
  · simp [push_of_not_mem h]

theorem mem_seen_foldl {s : Scan α κ} {xs : List α} {k : κ} :
    k ∈ (xs.foldl (push key) s).seen ↔ (∃ x ∈ xs, k = key x) ∨ k ∈ s.seen := by
  induction xs generalizing s with
  | nil => simp
  | cons x xs ih =>
    rw [List.foldl_cons, ih, mem_seen_push]
    simp only [List.mem_cons, exists_eq_or_imp]
    exact or_left_comm.trans or_assoc.symm

theorem mem_frontier_foldl {s : Scan α κ} {xs : List α} {y : α}
    (h : y ∈ (xs.foldl (push key) s).frontier) : y ∈ xs ∨ y ∈ s.frontier := by
  induction xs generalizing s with
  | nil => exact Or.inr h
  | cons x xs ih =>
    rcases ih h with h | h
    · exact Or.inl (List.mem_cons_of_mem x h)
    · by_cases hx : key x ∈ s.seen
      · exact Or.inr (push_of_mem hx ▸ h)
      · rw [push_of_not_mem hx] at h
        rcases List.mem_cons.mp h with rfl | h
        · exact Or.inl (List.mem_cons_self ..)
        · exact Or.inr h

theorem frontier_keep {s : Scan α κ} {xs : List α} {y : α} (h : y ∈ s.frontier) :
    y ∈ (xs.foldl (push key) s).frontier := by
  induction xs generalizing s with
  | nil => exact h
  | cons x xs ih =>
    by_cases hx : key x ∈ s.seen
    · exact ih (by rwa [push_of_mem hx])
    · exact ih (by simp [push_of_not_mem hx, h])

theorem frontier_of_new {s : Scan α κ} {xs : List α} {k : κ}
    (h : k ∈ (xs.foldl (push key) s).seen) :
    k ∈ s.seen ∨ ∃ x ∈ (xs.foldl (push key) s).frontier, x ∈ xs ∧ key x = k := by
  induction xs generalizing s with
  | nil => exact Or.inl h
  | cons x xs ih =>
    rw [List.foldl_cons] at h ⊢
    rcases ih h with h | ⟨y, hy, hxs, rfl⟩
    · by_cases hx : key x ∈ s.seen
      · exact Or.inl (push_of_mem hx ▸ h)
      · rcases mem_seen_push.mp h with rfl | h
        · refine Or.inr ⟨x, ?_, by simp, rfl⟩
          exact frontier_keep (by simp [push_of_not_mem hx])
        · exact Or.inl h
    · exact Or.inr ⟨y, hy, List.mem_cons_of_mem x hxs, rfl⟩

structure Exploring (key : α → κ) (next : α → List α) (nodes : List α) (a : α)
    (seen₀ : List κ) (s : Scan α κ) : Prop where
  start : ∀ k ∈ seen₀, k ∈ s.seen
  sound : ∀ k ∈ s.seen, k ∈ seen₀ ∨ ∃ y, TransGen (Edge next) a y ∧ key y = k
  live : ∀ x ∈ s.frontier, ReflTransGen (Edge next) a x
  closed : ∀ x, (x = a ∨ (x ∈ nodes ∧ key x ∈ s.seen)) →
    x ∈ s.frontier ∨ ∀ y ∈ next x, key y ∈ s.seen
  nodup : s.seen.Nodup
  bounded : ∀ k ∈ s.seen, ∃ x ∈ nodes, key x = k

variable {a : α} {seen₀ : List κ}

omit [DecidableEq κ] in
theorem Exploring.init (ha : a ∈ nodes)
    (hinj : ∀ x ∈ nodes, ∀ y ∈ nodes, key x = key y → x = y)
    (h₀ : seen₀ = [] ∨ seen₀ = [key a]) :
    Exploring key next nodes a seen₀ ⟨seen₀, [a]⟩ := by
  refine ⟨fun _ => id, fun k hk => Or.inl hk, ?_, ?_, ?_, ?_⟩
  · intro x hx
    rw [List.mem_singleton.mp hx]
  · rintro x (rfl | ⟨hx, hk⟩)
    · exact Or.inl (List.mem_singleton.mpr rfl)
    · rcases h₀ with rfl | rfl
      · simp at hk
      · exact Or.inl (List.mem_singleton.mpr (hinj x hx a ha (List.mem_singleton.mp hk)))
  · rcases h₀ with rfl | rfl <;> simp
  · intro k hk
    rcases h₀ with rfl | rfl
    · simp at hk
    · exact ⟨a, ha, (List.mem_singleton.mp hk).symm⟩

theorem nodup_seen_foldl {s : Scan α κ} {xs : List α} (h : s.seen.Nodup) :
    (xs.foldl (push key) s).seen.Nodup := by
  induction xs generalizing s with
  | nil => exact h
  | cons x xs ih =>
    by_cases hx : key x ∈ s.seen
    · exact ih (by rwa [push_of_mem hx])
    · exact ih (by simpa [push_of_not_mem hx] using ⟨hx, h⟩)

theorem Exploring.step (hnext : ∀ x, ∀ y ∈ next x, y ∈ nodes)
    (hinj : ∀ x ∈ nodes, ∀ y ∈ nodes, key x = key y → x = y)
    {seen : List κ} {x : α} {rest : List α}
    (h : Exploring key next nodes a seen₀ ⟨seen, x :: rest⟩) :
    Exploring key next nodes a seen₀ ((next x).foldl (push key) ⟨seen, rest⟩) := by
  have hx : ReflTransGen (Edge next) a x := h.live x (List.mem_cons_self ..)
  refine ⟨?_, ?_, ?_, ?_, nodup_seen_foldl h.nodup, ?_⟩
  · exact fun k hk => mem_seen_foldl.mpr (Or.inr (h.start k hk))
  · intro k hk
    rcases mem_seen_foldl.mp hk with ⟨y, hy, rfl⟩ | hk
    · exact Or.inr ⟨y, TransGen.tail' hx hy, rfl⟩
    · exact h.sound k hk
  · intro y hy
    rcases mem_frontier_foldl hy with hy | hy
    · exact hx.tail hy
    · exact h.live y (List.mem_cons_of_mem x hy)
  · intro z hz
    -- `z` was known before the pushes, or is one of the nodes they put on the stack
    have known : (z = a ∨ (z ∈ nodes ∧ key z ∈ seen)) ∨
        z ∈ ((next x).foldl (push key) ⟨seen, rest⟩).frontier := by
      rcases hz with rfl | ⟨hzn, hzk⟩
      · exact Or.inl (Or.inl rfl)
      · rcases frontier_of_new hzk with hold | ⟨w, hw, hwx, hwk⟩
        · exact Or.inl (Or.inr ⟨hzn, hold⟩)
        · exact Or.inr (hinj w (hnext x w hwx) z hzn hwk ▸ hw)
    rcases known with known | hfront
    · rcases h.closed z known with hzf | hzn
      · rcases List.mem_cons.mp hzf with rfl | hzf
        · exact Or.inr fun y hy => mem_seen_foldl.mpr (Or.inl ⟨y, hy, rfl⟩)
        · exact Or.inl (frontier_keep hzf)
      · exact Or.inr fun y hy => mem_seen_foldl.mpr (Or.inr (hzn y hy))
    · exact Or.inl hfront
  · intro k hk
    rcases mem_seen_foldl.mp hk with ⟨y, hy, rfl⟩ | hk
    · exact ⟨y, hnext x y hy, rfl⟩
    · exact h.bounded k hk

omit [DecidableEq κ] in
theorem Exploring.length_seen_le {s : Scan α κ} (h : Exploring key next nodes a seen₀ s) :
    s.seen.length ≤ nodes.length := by
  have hsub : s.seen ⊆ nodes.map key := by
    intro k hk
    obtain ⟨x, hx, rfl⟩ := h.bounded k hk
    exact List.mem_map_of_mem hx
  simpa using (h.nodup.subperm hsub).length_le

theorem length_foldl (s : Scan α κ) (xs : List α) :
    (xs.foldl (push key) s).frontier.length + s.seen.length =
      s.frontier.length + (xs.foldl (push key) s).seen.length := by
  induction xs generalizing s with
  | nil => simp
  | cons x xs ih =>
    rw [List.foldl_cons]
    by_cases hx : key x ∈ s.seen
    · rw [push_of_mem hx]
      exact ih s
    · rw [push_of_not_mem hx]
      have h := ih ⟨key x :: s.seen, x :: s.frontier⟩
      simp only [List.length_cons] at h
      omega

theorem explore_spec (hnext : ∀ x, ∀ y ∈ next x, y ∈ nodes)
    (hinj : ∀ x ∈ nodes, ∀ y ∈ nodes, key x = key y → x = y)
    (n : ℕ) (s : Scan α κ) (h : Exploring key next nodes a seen₀ s)
    (hfuel : s.frontier.length + nodes.length ≤ n + s.seen.length) :
    Exploring key next nodes a seen₀ (explore key next n s) ∧
      (explore key next n s).frontier = [] := by
  induction n generalizing s with
  | zero =>
    have := h.length_seen_le
    exact ⟨h, List.length_eq_zero_iff.mp (by simp only [explore]; omega)⟩
  | succ n ih =>
    obtain ⟨seen, frontier⟩ := s
    cases frontier with
    | nil => exact ⟨h, rfl⟩
    | cons x rest =>
      refine ih _ (h.step hnext hinj) ?_
      have := @length_foldl _ _ _ key ⟨seen, rest⟩ (next x)
      simp only [List.length_cons] at hfuel this ⊢
      omega

/-- The keys the search returns are the given ones and those of the proper descendants. -/
theorem mem_explore_iff (hnext : ∀ x, ∀ y ∈ next x, y ∈ nodes)
    (hinj : ∀ x ∈ nodes, ∀ y ∈ nodes, key x = key y → x = y) (ha : a ∈ nodes)
    (h₀ : seen₀ = [] ∨ seen₀ = [key a]) {n : ℕ} (hn : nodes.length + 1 ≤ n) {k : κ} :
    k ∈ (explore key next n ⟨seen₀, [a]⟩).seen ↔
      k ∈ seen₀ ∨ ∃ y, TransGen (Edge next) a y ∧ key y = k := by
  obtain ⟨h, hdone⟩ := explore_spec hnext hinj n ⟨seen₀, [a]⟩ (.init ha hinj h₀)
    (by simp only [List.length_singleton]; omega)
  constructor
  · exact h.sound k
  · rintro (hk | ⟨y, hy, rfl⟩)
    · exact h.start k hk
    · have done : ∀ x, (x = a ∨ (x ∈ nodes ∧ key x ∈ (explore key next n ⟨seen₀, [a]⟩).seen)) →
          ∀ y ∈ next x, key y ∈ (explore key next n ⟨seen₀, [a]⟩).seen := by
        intro x hx
        rcases h.closed x hx with hf | hc
        · simp [hdone] at hf
        · exact hc
      induction hy with
      | single hab => exact done a (Or.inl rfl) _ hab
      | @tail b c hab hbc ih =>
        have hb : b ∈ nodes := by
          cases hab with
          | single h => exact hnext _ _ h
          | tail _ h => exact hnext _ _ h
        exact done b (Or.inr ⟨hb, ih⟩) c hbc

end EvoHarness.Search
