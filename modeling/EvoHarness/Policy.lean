import EvoHarness.Library.PyText

/-! Which axioms a finished proof may rest on: four levels, the lowest axiom wins. -/
namespace EvoHarness.Proof
open PyText

inductive Trust where
  | tainted | claimed | audited | trusted
  deriving DecidableEq, Repr

def Trust.level : Trust → ℕ
  | .tainted => 0
  | .claimed => 1
  | .audited => 2
  | .trusted => 3

def Trust.value : Trust → Text
  | .tainted => "tainted".toList
  | .claimed => "claimed".toList
  | .audited => "audited".toList
  | .trusted => "trusted".toList

def standardAxioms : List Text :=
  ["propext".toList, "Quot.sound".toList, "Classical.choice".toList]

def compilerAxioms : List Text :=
  ["Lean.ofReduceBool".toList, "Lean.ofReduceNat".toList, "Lean.trustCompiler".toList]

def sorryName : Text := "sorryAx".toList

def isNativeDecideAxiom (name : Text) : Bool :=
  let parts := name.splitOn '.'
  "_native".toList ∈ parts && "native_decide".toList ∈ parts

abbrev NativeHolds := Text → Option Bool

def noRecheck : NativeHolds := fun _ => none

theorem Trust.audited_ne_tainted : Trust.audited ≠ .tainted := by decide

structure AxiomPolicy where
  minimumTrust : Trust := .audited
  not_tainted : minimumTrust ≠ .tainted := by decide

namespace AxiomPolicy

def levelOf (nativeHolds : NativeHolds) (a : Text) : Trust :=
  if a ∈ standardAxioms then .trusted
  else if a ∈ compilerAxioms then .audited
  else if isNativeDecideAxiom a then
    if nativeHolds a = some true then .audited else .claimed
  else if a = sorryName then .tainted
  else .claimed

def lower (s t : Trust) : Trust := if s.level ≤ t.level then s else t

/-- The lowest level of the axioms, `trusted` if there are none. -/
def classify (axioms : Finset Text) (nativeHolds : NativeHolds := noRecheck) : Trust :=
  (axioms.sort.map (levelOf nativeHolds)).foldr lower .trusted

def accepts (policy : AxiomPolicy) (trust : Trust) : Bool :=
  policy.minimumTrust.level ≤ trust.level

def blocking (policy : AxiomPolicy) (axioms : Finset Text) (nativeHolds : NativeHolds := noRecheck) :
    Finset Text :=
  axioms.filter fun a => (levelOf nativeHolds a).level < policy.minimumTrust.level

def unverifiedNative (axioms : Finset Text) (nativeHolds : NativeHolds := noRecheck) : Finset Text :=
  axioms.filter fun a => isNativeDecideAxiom a = true ∧ nativeHolds a ≠ some true

variable {policy : AxiomPolicy} {axioms : Finset Text} {holds : NativeHolds} {a : Text}

theorem le_level_lower {n : ℕ} {s t : Trust} : n ≤ (lower s t).level ↔ n ≤ s.level ∧ n ≤ t.level := by
  by_cases h : s.level ≤ t.level
  · simp only [lower, h, if_true]
    omega
  · simp only [lower, h, if_false]
    omega

theorem le_level_foldr {n : ℕ} {ts : List Trust} :
    n ≤ (ts.foldr lower .trusted).level ↔ n ≤ 3 ∧ ∀ t ∈ ts, n ≤ t.level := by
  induction ts with
  | nil => simp [Trust.level]
  | cons t ts ih =>
    rw [List.foldr_cons, le_level_lower, ih, List.forall_mem_cons]
    constructor
    · intro h
      exact ⟨h.2.1, h.1, h.2.2⟩
    · intro h
      exact ⟨h.2.1, h.1, h.2.2⟩

theorem level_le_three (t : Trust) : t.level ≤ 3 := by
  cases t <;> simp [Trust.level]

theorem one_le_minimumTrust : 1 ≤ policy.minimumTrust.level := by
  have h := policy.not_tainted
  cases hm : policy.minimumTrust with
  | tainted => exact absurd hm h
  | _ => simp [Trust.level]

theorem blocking_eq_empty_iff : policy.blocking axioms holds = ∅ ↔
    ∀ a ∈ axioms, policy.minimumTrust.level ≤ (levelOf holds a).level := by
  simp [blocking, Finset.filter_eq_empty_iff]

theorem accepts_classify_iff :
    policy.accepts (classify axioms holds) = true ↔ policy.blocking axioms holds = ∅ := by
  rw [blocking_eq_empty_iff]
  have hmax := level_le_three policy.minimumTrust
  have hfold : policy.accepts (classify axioms holds) = true ↔
      policy.minimumTrust.level ≤ (classify axioms holds).level := decide_eq_true_iff
  rw [hfold, classify, le_level_foldr]
  constructor
  · intro h a ha
    apply h.2
    exact List.mem_map_of_mem ((Finset.mem_sort _).mpr ha)
  · intro h
    refine ⟨hmax, fun t ht => ?_⟩
    obtain ⟨a, ha, rfl⟩ := List.mem_map.mp ht
    exact h a ((Finset.mem_sort _).mp ha)

theorem sorry_blocks (h : sorryName ∈ axioms) : policy.blocking axioms holds ≠ ∅ := by
  have hlevel : (levelOf holds sorryName).level = 0 := by
    have hnative : isNativeDecideAxiom sorryName = false := by decide
    simp [levelOf, hnative, show sorryName ∉ standardAxioms by decide,
      show sorryName ∉ compilerAxioms by decide, Trust.level]
  intro hb
  have hle := blocking_eq_empty_iff.mp hb sorryName h
  have hone : 1 ≤ policy.minimumTrust.level := one_le_minimumTrust
  omega

theorem known_not_native (h : isNativeDecideAxiom a = true) : a ∉ standardAxioms ∧ a ∉ compilerAxioms := by
  have hnone : ∀ b ∈ standardAxioms ++ compilerAxioms, isNativeDecideAxiom b = false := by decide
  constructor
  · intro ha
    have := hnone a (List.mem_append_left _ ha)
    simp [this] at h
  · intro ha
    have := hnone a (List.mem_append_right _ ha)
    simp [this] at h

theorem levelOf_unverified (h : isNativeDecideAxiom a = true) (hh : holds a ≠ some true) :
    levelOf holds a = .claimed := by
  obtain ⟨hstandard, hcompiler⟩ := known_not_native h
  simp [levelOf, hstandard, hcompiler, h, hh]

theorem one_le_levelOf (h : a ≠ sorryName) : 1 ≤ (levelOf holds a).level := by
  unfold levelOf
  split
  · simp [Trust.level]
  · split
    · simp [Trust.level]
    · split
      · split <;> simp [Trust.level]
      · simp [Trust.level]

theorem blocking_claimed (hm : policy.minimumTrust = .claimed) (h : sorryName ∉ axioms) :
    policy.blocking axioms holds = ∅ := by
  rw [blocking_eq_empty_iff, hm]
  intro a ha
  exact one_le_levelOf fun h' => h (h' ▸ ha)

theorem unverified_subset_blocking (hm : policy.minimumTrust ≠ .claimed) :
    unverifiedNative axioms holds ⊆ policy.blocking axioms holds := by
  intro a ha
  simp only [unverifiedNative, Finset.mem_filter] at ha
  obtain ⟨ha, hn, hh⟩ := ha
  have htwo : 2 ≤ policy.minimumTrust.level := by
    have hone : 1 ≤ policy.minimumTrust.level := one_le_minimumTrust
    cases h : policy.minimumTrust <;> simp_all [Trust.level]
  have hone : (levelOf holds a).level = 1 := by rw [levelOf_unverified hn hh, Trust.level]
  rw [blocking, Finset.mem_filter]
  exact ⟨ha, by omega⟩

end AxiomPolicy

/-- `", ".join(sorted(names))`, with the separator given. -/
def sortedNames (sep : Text) (names : Finset Text) : Text := join sep names.sort

end EvoHarness.Proof
