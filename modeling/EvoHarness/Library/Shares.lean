import Mathlib.Algebra.BigOperators.Group.List.Basic
import Mathlib.Algebra.BigOperators.Ring.List
import Mathlib.Algebra.Order.BigOperators.Group.List
import Mathlib.Algebra.Order.Field.Basic
import Mathlib.Tactic.Ring

/-! Shares of a whole in proportion to weights, and with a floor under each. -/
namespace EvoHarness.Shares
variable {K : Type} [Field K]

def proportional (ws : List K) : List K := ws.map (· / ws.sum)

def floored (floor : K) (shares : List K) : List K := shares.map fun s => floor + (1 - floor * shares.length) * s

theorem length_proportional (ws : List K) : (proportional ws).length = ws.length := List.length_map _

theorem length_floored (floor : K) (shares : List K) : (floored floor shares).length = shares.length := List.length_map _

theorem sum_affine (a b : K) (xs : List K) : (xs.map fun x => a + b * x).sum = a * xs.length + b * xs.sum := by
  induction xs with
  | nil => simp
  | cons x xs ih =>
    rw [List.map_cons, List.sum_cons, ih, List.sum_cons, List.length_cons, Nat.cast_succ]
    ring

theorem sum_proportional {ws : List K} (h : ws.sum ≠ 0) : (proportional ws).sum = 1 := by
  have hmap : proportional ws = ws.map fun w => 0 + ws.sum⁻¹ * w :=
    List.map_congr_left fun w _ => by rw [zero_add, div_eq_inv_mul]
  rw [hmap, sum_affine, zero_mul, zero_add, inv_mul_cancel₀ h]

theorem proportional_of_sum {ws : List K} (h : ws.sum = 1) : proportional ws = ws := by
  rw [proportional, h]
  simp

theorem sum_floored {shares : List K} (h : shares.sum = 1) (floor : K) : (floored floor shares).sum = 1 := by
  rw [floored, sum_affine, h]
  ring

variable [LinearOrder K] [IsStrictOrderedRing K]

theorem proportional_nonneg {ws : List K} (h : ∀ w ∈ ws, 0 ≤ w) : ∀ s ∈ proportional ws, 0 ≤ s := by
  intro s hs
  obtain ⟨w, hw, rfl⟩ := List.mem_map.mp hs
  exact div_nonneg (h w hw) (List.sum_nonneg h)

theorem floor_le {floor : K} {shares : List K} (hfloor : floor * shares.length ≤ 1) (h : ∀ s ∈ shares, 0 ≤ s) :
    ∀ p ∈ floored floor shares, floor ≤ p := by
  intro p hp
  obtain ⟨s, hs, rfl⟩ := List.mem_map.mp hp
  exact le_add_of_nonneg_right (mul_nonneg (sub_nonneg.mpr hfloor) (h s hs))

theorem floored_mono {floor : K} {ws : List K} (hfloor : floor * ws.length ≤ 1) (h : ∀ w ∈ ws, 0 ≤ w) {i j : ℕ} {v w : K}
    (hv : ws[i]? = some v) (hw : ws[j]? = some w) (hvw : v ≤ w) :
    ∃ p q, (floored floor (proportional ws))[i]? = some p ∧ (floored floor (proportional ws))[j]? = some q ∧ p ≤ q := by
  have hat {k : ℕ} {x : K} (hx : ws[k]? = some x) : (floored floor (proportional ws))[k]? =
      some (floor + (1 - floor * (proportional ws).length) * (x / ws.sum)) := by
    simp only [floored, List.getElem?_map, proportional, hx, Option.map_some]
  refine ⟨_, _, hat hv, hat hw, ?_⟩
  rw [length_proportional]
  have hrest := sub_nonneg.mpr hfloor
  have hshare : v / ws.sum ≤ w / ws.sum := div_le_div_of_nonneg_right hvw (List.sum_nonneg h)
  exact add_le_add le_rfl (mul_le_mul_of_nonneg_left hshare hrest)

end EvoHarness.Shares
