import Mathlib.Data.List.Basic
import Mathlib.Algebra.Order.BigOperators.Group.List
import Mathlib.Algebra.Order.Ring.Nat

/-! A tree that is gone through level by level, with a queue of what is still to be seen. -/
namespace EvoHarness.TreeWalk

variable {α : Type} (children : α → List α)

inductive Below : α → α → Prop where
  | self (x : α) : Below x x
  | child {x y z : α} (hy : y ∈ children x) (hz : Below y z) : Below x z

def walk : ℕ → List α → List α
  | 0, _ => []
  | _, [] => []
  | n + 1, x :: todo => x :: walk n (todo ++ children x)

variable {children} {size : α → ℕ}

theorem below_of_mem_walk {n : ℕ} {todo : List α} {y : α} (h : y ∈ walk children n todo) :
    ∃ x ∈ todo, Below children x y := by
  induction n generalizing todo with
  | zero => exact nomatch h
  | succ n ih =>
    cases todo with
    | nil => exact nomatch h
    | cons x todo =>
      rcases List.mem_cons.mp h with rfl | h
      · exact ⟨y, List.mem_cons_self, .self y⟩
      · obtain ⟨z, hz, hbelow⟩ := ih h
        rcases List.mem_append.mp hz with hz | hz
        · exact ⟨z, List.mem_cons_of_mem x hz, hbelow⟩
        · exact ⟨x, List.mem_cons_self, .child hz hbelow⟩

theorem mem_walk_of_below (hsize : ∀ x, size x = 1 + ((children x).map size).sum) {n : ℕ} {todo : List α}
    (hn : (todo.map size).sum ≤ n) {x y : α} (hx : x ∈ todo) (h : Below children x y) : y ∈ walk children n todo := by
  induction n generalizing todo x with
  | zero =>
    have hle : size x ≤ (todo.map size).sum := List.le_sum_of_mem (List.mem_map_of_mem hx)
    have hpos := hsize x
    omega
  | succ n ih =>
    cases todo with
    | nil => exact nomatch hx
    | cons z todo =>
      have hrest : ((todo ++ children z).map size).sum ≤ n := by
        have hz := hsize z
        rw [List.map_cons, List.sum_cons] at hn
        rw [List.map_append, List.sum_append]
        omega
      rw [walk]
      rcases List.mem_cons.mp hx with rfl | hx
      · cases h with
        | self => exact List.mem_cons_self
        | child hy hz => exact List.mem_cons_of_mem _ (ih hrest (List.mem_append_right todo hy) hz)
      · exact List.mem_cons_of_mem z (ih hrest (List.mem_append_left _ hx) h)

theorem mem_walk_iff (hsize : ∀ x, size x = 1 + ((children x).map size).sum) (x y : α) :
    y ∈ walk children (size x) [x] ↔ Below children x y := by
  constructor
  · intro h
    obtain ⟨z, hz, hbelow⟩ := below_of_mem_walk h
    rwa [List.mem_singleton.mp hz] at hbelow
  · exact mem_walk_of_below hsize (by simp) (List.mem_singleton_self x)

end EvoHarness.TreeWalk
