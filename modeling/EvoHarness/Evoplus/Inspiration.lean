import EvoHarness.Core.Inspirations
import EvoHarness.Evoplus.Signatures
import Mathlib.Data.List.MinMax
import Mathlib.Data.Prod.Lex

/-! A reference program for what it knows: the candidate that solves most of what the parent fails. -/
namespace EvoHarness.Evoplus.Inspiration
open PyText Core.Population Core.Population.Inspirations Core.Population.Proposing

structure ComplementaryInspiration where
  minGain : ℤ := 1
  maxNamedItems : ℤ := 5
  one_le_minGain : 1 ≤ minGain
  maxNamedItems_nonneg : 0 ≤ maxNamedItems

/-- What candidates carry beside what selection sees: the signature that is stored, and the ids of the items of the
feedback, where an item has one. -/
structure Carried where
  behaviorSignature : Candidate → Option Text
  itemIds : Candidate → List (Option Text)

structure Donor where
  cand : Candidate
  sig : BehaviorSignature
  overlap : Complementarity

def Donor.key (d : Donor) : ℕ ×ₗ ℚ ×ₗ Text := toLex (d.overlap.donorOnly, toLex (d.cand.fitness, d.cand.id))

namespace ComplementaryInspiration
variable (P : ComplementaryInspiration) (carried : Carried)

def donor (parent : Candidate) (parentSig : BehaviorSignature) (cand : Candidate) : Option Donor :=
  if cand.id = parent.id ∨ cand.passed = false then none
  else
    match signatureOf (carried.behaviorSignature cand) with
    | none => none
    | some sig =>
      match complementarity parentSig sig with
      | none => none
      | some overlap => if (overlap.donorOnly : ℤ) < P.minGain then none else some ⟨cand, sig, overlap⟩

def solved (parentSig donorSig : BehaviorSignature) : List ℕ :=
  (List.range (parentSig.passVector.zip donorSig.passVector).length).filter fun index =>
    (parentSig.passVector.zip donorSig.passVector)[index]?.any fun p => !p.1 && p.2

def itemNames (parent : Candidate) (indices : List ℕ) : List Text :=
  indices.filterMap fun index => ((carried.itemIds parent)[index]?.getD none).filter (· ≠ [])

def note (parent : Candidate) (parentSig : BehaviorSignature) (d : Donor) : Text :=
  let names := itemNames carried parent ((solved parentSig d.sig).take P.maxNamedItems.toNat)
  let named := if names = [] then [] else " (".toList ++ join ", ".toList names ++ [')']
  "Solves ".toList ++ Nat.toDigits 10 d.overlap.donorOnly ++ " item(s) this parent fails".toList ++ named ++
    (if d.overlap.baseOnly = 0 then []
      else "; fails ".toList ++ Nat.toDigits 10 d.overlap.baseOnly ++ " the parent solves".toList) ++ ['.']

def pick (parent : Candidate) (pool : List Candidate) : Option (Candidate × Text) :=
  match signatureOf (carried.behaviorSignature parent) with
  | none => none
  | some parentSig =>
    if parentSig.passVector.all id then none
    else ((pool.filterMap (P.donor carried parent parentSig)).argmax Donor.key).map fun d =>
      (d.cand, P.note carried parent parentSig d)

end ComplementaryInspiration

/-- How many of the items the parent fails the other one solves; nothing when they were not graded on the same. -/
def gain (carried : Carried) (parent cand : Candidate) : ℕ :=
  match signatureOf (carried.behaviorSignature parent), signatureOf (carried.behaviorSignature cand) with
  | some p, some d =>
    if p.passVector.length = d.passVector.length then (p.passVector.zip d.passVector).countP fun q => !q.1 && q.2 else 0
  | _, _ => 0

/-- A program of the pool that knows at least `minGain` things the parent does not. -/
def Teaches (P : ComplementaryInspiration) (carried : Carried) (parent cand : Candidate) : Prop :=
  cand.id ≠ parent.id ∧ cand.passed = true ∧ P.minGain ≤ gain carried parent cand

def rank (carried : Carried) (parent cand : Candidate) : ℕ ×ₗ ℚ ×ₗ Text :=
  toLex (gain carried parent cand, toLex (cand.fitness, cand.id))

section
variable {P : ComplementaryInspiration} {carried : Carried} {parent cand : Candidate} {parentSig : BehaviorSignature}

theorem donor_iff (hparent : signatureOf (carried.behaviorSignature parent) = some parentSig) {d : Donor} :
    P.donor carried parent parentSig cand = some d → d.cand = cand ∧ Teaches P carried parent cand ∧
      d.key = rank carried parent cand ∧ d.overlap.donorOnly = gain carried parent cand := by
  intro h
  unfold ComplementaryInspiration.donor at h
  split at h
  · cases h
  · next hother =>
    rw [not_or, Bool.not_eq_false] at hother
    split at h
    · cases h
    · next sig hsig =>
      split at h
      · cases h
      · next overlap hoverlap =>
        split at h
        · cases h
        · next hgain =>
          cases h
          have hdonor : overlap.donorOnly = gain carried parent cand := by
            unfold complementarity at hoverlap
            split at hoverlap
            · cases hoverlap
            · next hlength =>
              split at hoverlap
              · cases hoverlap
              · cases hoverlap
                simp only [gain, hparent, hsig, not_not.mp hlength, if_true]
          exact ⟨rfl, ⟨hother.1, hother.2, hdonor ▸ not_lt.mp hgain⟩, by rw [Donor.key, rank, hdonor], hdonor⟩

theorem exists_donor (hparent : signatureOf (carried.behaviorSignature parent) = some parentSig)
    (h : Teaches P carried parent cand) : ∃ d, P.donor carried parent parentSig cand = some d := by
  obtain ⟨hother, hpassed, hgain⟩ := h
  have hpos : 0 < gain carried parent cand := by
    have hone := P.one_le_minGain
    omega
  unfold ComplementaryInspiration.donor
  rw [if_neg (by rw [not_or, Bool.not_eq_false]; exact ⟨hother, hpassed⟩)]
  cases hsig : signatureOf (carried.behaviorSignature cand) with
  | none => simp [gain, hparent, hsig] at hpos
  | some sig =>
    have hlength : parentSig.passVector.length = sig.passVector.length := by
      by_contra hne
      simp [gain, hparent, hsig, hne] at hpos
    simp only [gain, hparent, hsig, hlength, if_true] at hgain hpos
    have hne : parentSig.passVector ≠ [] := by
      intro hnil
      rw [hnil] at hpos
      simp at hpos
    have hoverlap : ∃ o, complementarity parentSig sig = some o ∧
        o.donorOnly = (parentSig.passVector.zip sig.passVector).countP fun q => !q.1 && q.2 := by
      unfold complementarity
      rw [if_neg (not_not.mpr hlength), if_neg hne]
      exact ⟨_, rfl, rfl⟩
    obtain ⟨o, ho, hdonorOnly⟩ := hoverlap
    simp only [ho]
    rw [if_neg (by rw [hdonorOnly]; exact not_lt.mpr hgain)]
    exact ⟨_, rfl⟩

theorem gain_of_all (hparent : signatureOf (carried.behaviorSignature parent) = some parentSig)
    (hall : parentSig.passVector.all id = true) : gain carried parent cand = 0 := by
  unfold gain
  rw [hparent]
  split
  · next p d hp hd =>
    cases hp
    split
    · rw [List.countP_eq_zero]
      intro q hq
      have hpass := List.all_eq_true.mp hall q.1 (List.of_mem_zip hq).1
      simp only [id] at hpass
      simp [hpass]
    · rfl
  · rfl

theorem not_teaches_of_gain (h : gain carried parent cand = 0) : ¬ Teaches P carried parent cand := by
  rintro ⟨-, -, hgain⟩
  have hone := P.one_le_minGain
  omega

theorem pick_eq_none {pool : List Candidate} : P.pick carried parent pool = none ↔ ∀ c ∈ pool, ¬ Teaches P carried parent c := by
  unfold ComplementaryInspiration.pick
  cases hparent : signatureOf (carried.behaviorSignature parent) with
  | none =>
    refine iff_of_true rfl fun c _ => not_teaches_of_gain ?_
    simp [gain, hparent]
  | some parentSig =>
    by_cases hall : parentSig.passVector.all id = true
    · dsimp only
      rw [if_pos hall]
      exact iff_of_true rfl fun c _ => not_teaches_of_gain (gain_of_all hparent hall)
    · dsimp only
      rw [if_neg hall, Option.map_eq_none_iff, List.argmax_eq_none, List.filterMap_eq_nil_iff]
      constructor
      · intro h c hc hteaches
        obtain ⟨d, hd⟩ := exists_donor hparent hteaches
        rw [h c hc] at hd
        cases hd
      · intro h c hc
        by_contra hsome
        obtain ⟨d, hd⟩ := Option.ne_none_iff_exists'.mp hsome
        exact h c hc (donor_iff hparent hd).2.1

theorem of_pick {pool : List Candidate} {picked : Candidate × Text} (h : P.pick carried parent pool = some picked) :
    picked.1 ∈ pool ∧ Teaches P carried parent picked.1 ∧
      (∀ c ∈ pool, Teaches P carried parent c → rank carried parent c ≤ rank carried parent picked.1) ∧
      ∃ parentSig d, signatureOf (carried.behaviorSignature parent) = some parentSig ∧
        P.donor carried parent parentSig picked.1 = some d ∧ picked.2 = P.note carried parent parentSig d := by
  unfold ComplementaryInspiration.pick at h
  cases hparent : signatureOf (carried.behaviorSignature parent) with
  | none =>
    rw [hparent] at h
    cases h
  | some parentSig =>
    rw [hparent] at h
    dsimp only at h
    split at h
    · cases h
    · obtain ⟨d, hd, rfl⟩ := Option.map_eq_some_iff.mp h
      obtain ⟨c, hc, hdonor⟩ := List.mem_filterMap.mp (List.argmax_mem hd)
      obtain ⟨hcand, hteaches, hkey, -⟩ := donor_iff hparent hdonor
      dsimp only
      rw [hcand]
      refine ⟨hc, hteaches, fun c' hc' hteaches' => ?_, parentSig, d, rfl, hdonor, rfl⟩
      obtain ⟨d', hd'⟩ := exists_donor hparent hteaches'
      rw [← hkey, ← (donor_iff hparent hd').2.2.1]
      exact List.le_of_mem_argmax (List.mem_filterMap.mpr ⟨c', hc', hd'⟩) hd

def policy (P : ComplementaryInspiration) (carried : Carried) : InspirationPolicy where
  pick parent pool := P.pick carried parent pool
  pick_mem _ _ _ h := (of_pick h).1

theorem rank_inj {c d : Candidate} (h : rank carried parent c = rank carried parent d) : c.id = d.id := by
  have hinner := (Prod.mk.inj (toLex.injective h)).2
  exact (Prod.mk.inj (toLex.injective hinner)).2

theorem pick_perm {pool pool' : List Candidate} (hperm : pool.Perm pool') (hids : (pool.map (·.id)).Nodup) :
    P.pick carried parent pool = P.pick carried parent pool' := by
  cases hpick : P.pick carried parent pool with
  | none =>
    rw [pick_eq_none] at hpick
    exact (pick_eq_none.mpr fun c hc => hpick c (hperm.mem_iff.mpr hc)).symm
  | some picked =>
    cases hpick' : P.pick carried parent pool' with
    | none =>
      have hteaches := (of_pick hpick).2.1
      exact absurd hteaches (pick_eq_none.mp hpick' picked.1 (hperm.mem_iff.mp (of_pick hpick).1))
    | some picked' =>
      obtain ⟨hmem, hteaches, hbest, parentSig, d, hparent, hdonor, hnote⟩ := of_pick hpick
      obtain ⟨hmem', hteaches', hbest', parentSig', d', hparent', hdonor', hnote'⟩ := of_pick hpick'
      have hrank := le_antisymm (hbest' picked.1 (hperm.mem_iff.mp hmem) hteaches)
        (hbest picked'.1 (hperm.mem_iff.mpr hmem') hteaches')
      have hcand : picked.1 = picked'.1 :=
        List.inj_on_of_nodup_map hids hmem (hperm.mem_iff.mpr hmem') (rank_inj hrank)
      rw [hparent] at hparent'
      cases hparent'
      rw [hcand] at hdonor
      rw [hdonor] at hdonor'
      cases hdonor'
      exact congrArg some (Prod.ext hcand (hnote.trans hnote'.symm))

end

section
variable {σ : Type} (P : ComplementaryInspiration) (carried : Carried) (cfg : InspirationConfig) (g : Inspirations.Generator σ)
  (parent : Candidate) (pop : List Candidate) (s : σ)

structure ShowsBest : Prop where
  bounded : Bounded cfg parent pop (sample cfg g none parent pop s) (sample cfg g (some (policy P carried)) parent pop s)
  nothing : (∀ c ∈ scope cfg parent pop, ¬ Teaches P carried parent c) →
    sample cfg g (some (policy P carried)) parent pop s = sample cfg g none parent pop s
  best : ∀ c ∈ scope cfg parent pop, Teaches P carried parent c → ∃ picked,
    P.pick carried parent (scope cfg parent pop) = some picked ∧ picked.1 ∈ scope cfg parent pop ∧
    Teaches P carried parent picked.1 ∧ rank carried parent c ≤ rank carried parent picked.1 ∧
    ((picked.1.id ∈ ((sample cfg g (some (policy P carried)) parent pop s).archive ++
        (sample cfg g (some (policy P carried)) parent pop s).topK).map (·.id) ∧
      (sample cfg g (some (policy P carried)) parent pop s).notes = [(picked.1.id, picked.2)]) ↔
        0 < cfg.numTopKInspirations ∨ picked.1.id ∈ (sample cfg g none parent pop s).archive.map (·.id))
  order : ∀ pool, (scope cfg parent pop).Perm pool →
    P.pick carried parent pool = P.pick carried parent (scope cfg parent pop)

variable {P carried cfg g parent pop s}

theorem sample_policy : sample cfg g (some (policy P carried)) parent pop s =
    match P.pick carried parent (scope cfg parent pop) with
    | none => drawn cfg g parent pop s
    | some picked => withPick parent (drawn cfg g parent pop s) picked := rfl

theorem shown_withPick {d : InspirationDraw} {picked : Candidate × Text} (hother : picked.1.id ≠ parent.id) (h : d.topK ≠ []) :
    picked.1.id ∈ ((withPick parent d picked).archive ++ (withPick parent d picked).topK).map (·.id) ∧
      (withPick parent d picked).notes = [(picked.1.id, picked.2)] := by
  unfold withPick
  split
  · next hmem =>
    cases List.mem_cons.mp hmem with
    | inl hparent => exact absurd hparent hother
    | inr hshown => exact ⟨hshown, rfl⟩
  · exact ⟨by simp, rfl⟩

theorem shown_iff {picked : Candidate × Text} (hmem : picked.1 ∈ scope cfg parent pop) (hother : picked.1.id ≠ parent.id) :
    (picked.1.id ∈ ((withPick parent (Inspirations.drawn cfg g parent pop s) picked).archive ++
        (withPick parent (Inspirations.drawn cfg g parent pop s) picked).topK).map (·.id) ∧
      (withPick parent (Inspirations.drawn cfg g parent pop s) picked).notes = [(picked.1.id, picked.2)]) ↔
        0 < cfg.numTopKInspirations ∨ picked.1.id ∈ (Inspirations.drawn cfg g parent pop s).archive.map (·.id) := by
  constructor
  · rintro ⟨hshown, -⟩
    by_contra hnot
    rw [not_or, not_lt] at hnot
    have hnone : (Inspirations.drawn cfg g parent pop s).topK = [] := by rw [Inspirations.drawn, topKRoute, if_pos hnot.1]
    have hnew : picked.1.id ∉ parent.id :: ((Inspirations.drawn cfg g parent pop s).archive ++ (Inspirations.drawn cfg g parent pop s).topK).map (·.id) := by
      rw [hnone, List.append_nil, List.mem_cons, not_or]
      exact ⟨hother, hnot.2⟩
    rw [withPick, if_neg hnew, if_pos hnone, hnone, List.append_nil] at hshown
    exact hnot.2 hshown
  · rintro (hroom | harchive)
    · by_cases hin : picked.1.id ∈ (Inspirations.drawn cfg g parent pop s).archive.map (·.id)
      · rw [withPick, if_pos (by simp [hin])]
        exact ⟨by simp [hin], rfl⟩
      · refine shown_withPick hother (topKRoute_ne_nil hroom hmem ?_)
        rw [List.mem_cons, not_or]
        exact ⟨hother, hin⟩
    · rw [withPick, if_pos (by simp [harchive])]
      exact ⟨by simp [harchive], rfl⟩

/-- The best donor of the scope is shown, with its note, exactly where there is room for a program by fitness or the
archive gave it already; the draw stays a bounded set of other programs, and where there is no donor it stays as it was. -/
theorem complementary_shown (P : ComplementaryInspiration) (carried : Carried) (cfg : InspirationConfig) (g : Inspirations.Generator σ)
    (parent : Candidate) (pop : List Candidate) (s : σ) (hids : (pop.map (·.id)).Nodup) :
    ShowsBest P carried cfg g parent pop s := by
  have hbefore : sample cfg g none parent pop s = drawn cfg g parent pop s := rfl
  refine ⟨?_, fun hnone => ?_, fun c hc hteaches => ?_, fun pool hperm => (pick_perm hperm (scope_distinct hids)).symm⟩
  · rw [hbefore, sample_policy]
    split
    · exact drawn_bounded hids
    · next picked hpick =>
      obtain ⟨hmem, hteaches, -⟩ := of_pick hpick
      exact (drawn_bounded hids).withPick hmem hteaches.1
  · rw [hbefore, sample_policy, pick_eq_none.mpr hnone]
  · cases hpick : P.pick carried parent (scope cfg parent pop) with
    | none => exact absurd hteaches (pick_eq_none.mp hpick c hc)
    | some picked =>
      obtain ⟨hmem, hteaches', hbest, -⟩ := of_pick hpick
      refine ⟨picked, rfl, hmem, hteaches', hbest c hc hteaches, ?_⟩
      rw [sample_policy, hpick]
      exact shown_iff hmem hteaches'.1

end

def learner : Candidate := { id := ['p'], generation := 0, report := some ⟨2, true⟩ }

def teacher : Candidate := { id := ['t'], generation := 1, report := some ⟨1, true⟩ }

def halves : Carried where
  behaviorSignature c := if c.id = ['p'] then some "10|".toList else some "01|".toList
  itemIds _ := [some ['a'], some ['b']]

def firstItem : Inspirations.Generator Unit where
  integers _ _ := (0, ())
  integers_lt _ _ h := h

theorem complementary_shown_learner :
    ShowsBest { one_le_minGain := le_refl 1, maxNamedItems_nonneg := by decide } halves { eliteShare := fun _ => 0 } firstItem
      learner [learner, teacher] () :=
  complementary_shown _ _ _ _ _ _ _ (by decide)

end EvoHarness.Evoplus.Inspiration
