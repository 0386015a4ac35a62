import Mathlib.Data.List.Basic
import Mathlib.Data.List.Nodup
import Mathlib.Data.List.Pairwise
import Mathlib.Logic.Relation

/-! Walking an acyclic graph children first, without a record of the nodes met: every
node is listed as often as there are ways to come to it. -/
namespace EvoHarness.Postorder
open Relation

variable {α : Type*}

/-- `x` after everything below it; the fuel bounds the depth. -/
def postorder (next : α → List α) : ℕ → α → List α
  | 0, _ => []
  | n + 1, x => (next x).flatMap (postorder next n) ++ [x]

def Walked (next : α → List α) : α → α → Prop := ReflTransGen fun x y => y ∈ next x

variable {next : α → List α} {rank : α → ℕ} {n : ℕ} {x y z w : α}

theorem mem_postorder (hrank : ∀ x, ∀ y ∈ next x, rank y < rank x) (hn : rank x < n) :
    y ∈ postorder next n x ↔ Walked next x y := by
  induction n generalizing x with
  | zero => omega
  | succ n ih =>
    simp only [postorder, List.mem_append, List.mem_flatMap, List.mem_singleton]
    constructor
    · intro h
      cases h with
      | inl h =>
        obtain ⟨z, hz, hy⟩ := h
        have hlt := hrank x z hz
        exact .head hz ((ih (by omega)).mp hy)
      | inr h => exact h ▸ .refl
    · intro h
      cases h.cases_head with
      | inl h => exact Or.inr h.symm
      | inr h =>
        obtain ⟨z, hz, hy⟩ := h
        have hlt := hrank x z hz
        exact Or.inl ⟨z, hz, (ih (by omega)).mpr hy⟩

theorem postorder_children_first (hrank : ∀ x, ∀ y ∈ next x, rank y < rank x) (hn : rank x < n)
    {before after : List α} (h : postorder next n x = before ++ y :: after) (hz : z ∈ next y) :
    z ∈ before := by
  induction n generalizing x before after with
  | zero => omega
  | succ n ih =>
    -- the part of the walk that `y` falls into ends with a child of `x`, or is `x` itself
    have hchildren : ∀ (cs : List α), (∀ c ∈ cs, c ∈ next x) → ∀ before after,
        cs.flatMap (postorder next n) = before ++ y :: after → z ∈ before := by
      intro cs
      induction cs with
      | nil => intro _ before after h; simp at h
      | cons c cs ihc =>
        intro hcs before after h
        have hlt := hrank x c (hcs c (List.mem_cons_self ..))
        rw [List.flatMap_cons, List.append_eq_append_iff] at h
        cases h with
        | inl h =>
          obtain ⟨m, rfl, hm⟩ := h
          have := ihc (fun d hd => hcs d (List.mem_cons_of_mem c hd)) m after hm
          exact List.mem_append_right _ this
        | inr h =>
          obtain ⟨m, hm, hcut⟩ := h
          cases m with
          | nil =>
            have := ihc (fun d hd => hcs d (List.mem_cons_of_mem c hd)) [] after (by simpa using hcut.symm)
            simp at this
          | cons d m =>
            obtain ⟨rfl, -⟩ := List.cons.inj hcut
            exact ih (by omega) hm
    rw [postorder, List.append_eq_append_iff] at h
    cases h with
    | inl h =>
      obtain ⟨m, rfl, hm⟩ := h
      cases m with
      | nil =>
        obtain ⟨rfl, -⟩ := List.cons.inj hm
        have hlt := hrank x z hz
        refine List.mem_append_left _ (List.mem_flatMap.mpr ⟨z, hz, ?_⟩)
        exact (mem_postorder hrank (by omega)).mpr .refl
      | cons d m => simp at hm
    | inr h =>
      obtain ⟨m, hm, hcut⟩ := h
      cases m with
      | nil =>
        obtain ⟨hyx, -⟩ := List.cons.inj hcut
        rw [hyx] at hz
        have hlt := hrank x z hz
        rw [List.append_nil] at hm
        rw [← hm]
        exact List.mem_flatMap.mpr ⟨z, hz, (mem_postorder hrank (by omega)).mpr .refl⟩
      | cons d m =>
        obtain ⟨rfl, -⟩ := List.cons.inj hcut
        exact hchildren (next x) (fun _ h => h) before m hm

theorem rank_le (hrank : ∀ x, ∀ y ∈ next x, rank y < rank x) (h : Walked next x y) : rank y ≤ rank x := by
  induction h with
  | refl => exact Nat.le_refl _
  | tail _ hz ih =>
    have hlt := hrank _ _ hz
    omega

/-- Where no two nodes share a child, two different children of one node lead to
different nodes. -/
theorem apart_below (hrank : ∀ x, ∀ y ∈ next x, rank y < rank x)
    (hunshared : ∀ y z, Walked next x y → Walked next x z → ∀ w ∈ next y, w ∈ next z → y = z)
    (hy : y ∈ next x) (hz : z ∈ next x) (hyw : Walked next y w) (hzw : Walked next z w) : y = z := by
  induction hyw with
  | refl =>
    -- `y` is below `z`: the last step to it comes from `x`, above `z`
    cases hzw.cases_tail with
    | inl h => exact h
    | inr h =>
      obtain ⟨v, hzv, hv⟩ := h
      have hvx : v = x := hunshared v x (.head hz hzv) .refl y hv hy
      have hle := rank_le hrank hzv
      have hlt := hrank x z hz
      rw [hvx] at hle
      omega
  | @tail u w hyu hu ih =>
    cases hzw.cases_tail with
    | inl h =>
      subst h
      have hux : u = x := hunshared u x (.head hy hyu) .refl w hu hz
      have hle := rank_le hrank hyu
      have hlt := hrank x y hy
      rw [hux] at hle
      omega
    | inr h =>
      obtain ⟨v, hzv, hv⟩ := h
      have huv : u = v := hunshared u v (.head hy hyu) (.head hz hzv) w hu hv
      exact ih (huv ▸ hzv)

/-- The walk lists every node once exactly when no two nodes it comes to share a child. -/
theorem nodup_postorder_iff (hrank : ∀ x, ∀ y ∈ next x, rank y < rank x) (hn : rank x < n)
    (hnext : ∀ y, Walked next x y → (next y).Nodup) :
    (postorder next n x).Nodup ↔
      ∀ y z, Walked next x y → Walked next x z → ∀ w ∈ next y, w ∈ next z → y = z := by
  induction n generalizing x with
  | zero => omega
  | succ n ih =>
    have hmem : ∀ c ∈ next x, ∀ y, y ∈ postorder next n c ↔ Walked next c y := by
      intro c hc y
      have hlt := hrank x c hc
      exact mem_postorder hrank (by omega)
    have hih : ∀ c ∈ next x, (postorder next n c).Nodup ↔
        ∀ y z, Walked next c y → Walked next c z → ∀ w ∈ next y, w ∈ next z → y = z := by
      intro c hc
      have hlt := hrank x c hc
      exact ih (by omega) fun y hy => hnext y (.head hc hy)
    have hlast : x ∉ (next x).flatMap (postorder next n) := by
      intro h
      obtain ⟨c, hc, hx⟩ := List.mem_flatMap.mp h
      have hle := rank_le hrank ((hmem c hc x).mp hx)
      have hlt := hrank x c hc
      omega
    rw [postorder, List.nodup_append, List.nodup_flatMap]
    constructor
    · intro ⟨⟨hall, hapart⟩, _⟩
      have hsame : ∀ c ∈ next x, ∀ d ∈ next x, ∀ w, Walked next c w → Walked next d w → c = d := by
        intro c hc d hd w hcw hdw
        by_contra hne
        have : Std.Symm (Function.onFun List.Disjoint (postorder next n)) := ⟨fun _ _ h _ ha hb => h hb ha⟩
        exact hapart.forall hc hd hne ((hmem c hc w).mpr hcw) ((hmem d hd w).mpr hdw)
      -- a child of `x` is not a child of a node below `x`
      have htop : ∀ c ∈ next x, ∀ v, Walked next c v → ∀ w ∈ next v, w ∉ next x := by
        intro c hc v hv w hw hwx
        obtain rfl := hsame c hc w hwx w (hv.tail hw) .refl
        have hle := rank_le hrank hv
        have hlt := hrank v c hw
        omega
      intro y z hy hz w hwy hwz
      cases hy.cases_head with
      | inl hxy =>
        cases hz.cases_head with
        | inl hxz => exact hxy.symm.trans hxz
        | inr h =>
          obtain ⟨d, hd, hdz⟩ := h
          exact absurd (hxy ▸ hwy) (htop d hd z hdz w hwz)
      | inr h =>
        obtain ⟨c, hc, hcy⟩ := h
        cases hz.cases_head with
        | inl hxz => exact absurd (hxz ▸ hwz) (htop c hc y hcy w hwy)
        | inr h =>
          obtain ⟨d, hd, hdz⟩ := h
          obtain rfl := hsame c hc d hd w (hcy.tail hwy) (hdz.tail hwz)
          exact (hih c hc).mp (hall c hc) y z hcy hdz w hwy hwz
    · intro hunshared
      refine ⟨⟨?_, ?_⟩, List.nodup_singleton x, ?_⟩
      · intro c hc
        exact (hih c hc).mpr fun y z hy hz => hunshared y z (.head hc hy) (.head hc hz)
      · refine (hnext x .refl).pairwise_of_forall_ne fun c hc d hd hne => ?_
        intro w hcw hdw
        exact hne (apart_below hrank hunshared hc hd ((hmem c hc w).mp hcw) ((hmem d hd w).mp hdw))
      · intro a ha b hb hab
        rw [List.mem_singleton.mp hb] at hab
        exact hlast (hab ▸ ha)

/-- Where every node below `x` adds something, what the walk adds has nothing twice exactly when no two nodes share a
child, no node adds anything twice, and no two add the same. -/
theorem nodup_flatMap_postorder_iff {β : Type*} {f : α → List β} (hrank : ∀ x, ∀ y ∈ next x, rank y < rank x)
    (hn : rank x < n) (hnext : ∀ y, Walked next x y → (next y).Nodup)
    (hf : ∀ y, Walked next x y → ∀ z ∈ next y, f z ≠ []) :
    ((postorder next n x).flatMap f).Nodup ↔
      (∀ y z, Walked next x y → Walked next x z → ∀ w ∈ next y, w ∈ next z → y = z) ∧
      (∀ y, Walked next x y → (f y).Nodup) ∧
      ∀ y z, Walked next x y → Walked next x z → y ≠ z → (f y).Disjoint (f z) := by
  have hmem : ∀ y, y ∈ postorder next n x ↔ Walked next x y := fun y => mem_postorder hrank hn
  rw [← nodup_postorder_iff hrank hn hnext, List.nodup_flatMap]
  constructor
  · intro ⟨hall, hapart⟩
    have hsymm : Std.Symm (Function.onFun List.Disjoint f) := ⟨fun _ _ h _ ha hb => h hb ha⟩
    have hnodup : (postorder next n x).Nodup := by
      obtain ⟨n, rfl⟩ : ∃ k, n = k + 1 := ⟨n - 1, by omega⟩
      rw [postorder, List.nodup_append]
      rw [postorder, List.pairwise_append] at hapart
      have hbelow : ∀ y ∈ (next x).flatMap (postorder next n), rank y < rank x ∧ f y ≠ [] := by
        intro y hy
        obtain ⟨c, hc, hy⟩ := List.mem_flatMap.mp hy
        have hlt := hrank x c hc
        have hcy := (mem_postorder hrank (by omega)).mp hy
        have hle := rank_le hrank hcy
        refine ⟨by omega, ?_⟩
        cases hcy.cases_tail with
        | inl h => exact h ▸ hf x .refl c hc
        | inr h =>
          obtain ⟨z, hz, hy⟩ := h
          exact hf z (.head hc hz) y hy
      refine ⟨?_, List.nodup_singleton x, ?_⟩
      · refine hapart.1.imp_of_mem fun {y z} hy _ hdis heq => ?_
        obtain ⟨b, hb⟩ := List.exists_mem_of_ne_nil _ (hbelow y hy).2
        exact hdis hb (heq ▸ hb)
      · intro y hy z hz heq
        rw [List.mem_singleton.mp hz] at heq
        have hlt := (hbelow y hy).1
        rw [heq] at hlt
        exact absurd hlt (Nat.lt_irrefl _)
    exact ⟨hnodup, fun y hy => hall y ((hmem y).mpr hy), fun y z hy hz hne =>
      hapart.forall ((hmem y).mpr hy) ((hmem z).mpr hz) hne⟩
  · intro ⟨hnodup, hall, hapart⟩
    refine ⟨fun y hy => hall y ((hmem y).mp hy), ?_⟩
    exact hnodup.pairwise_of_forall_ne fun y hy z hz hne => hapart y z ((hmem y).mp hy) ((hmem z).mp hz) hne

end EvoHarness.Postorder
