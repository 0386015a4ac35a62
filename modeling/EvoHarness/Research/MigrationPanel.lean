import EvoHarness.Library.Ranks
import EvoHarness.Research.Migration
import Mathlib.Data.List.Lex
import Mathlib.Data.Prod.Lex
import Mathlib.Algebra.Order.BigOperators.Group.List

/-! The comparison of two measurements of the same candidates, and the report on it, over exact
rational scores. -/
namespace EvoHarness.Research
open PyText Ranks

structure PanelEvidence extends EvidenceEnvelope where
  budgetUsedUsd : ℚ

inductive PanelFault where
  | panelError (message : Text)
  | zeroDivision
deriving DecidableEq

@[ext]
structure ScoreMap where
  scoreNamespace : ScoreNamespace
  scores : List (Text × ℚ) := []
  evidence : List (Text × Text) := []
  cost : ℚ := 0
  refs : List Text

def panelError (message : Text) {α : Type} : Except PanelFault α := .error (.panelError message)

def scoreStep (label : Text) (m : ScoreMap) (e : PanelEvidence) : Except PanelFault ScoreMap :=
  match e.evaluationValid, e.fitness with
  | true, some score =>
    if e.admissible = some false then
      panelError (label ++ " panel contains inadmissible evidence (".toList ++ e.candidateId ++ ")".toList)
    else if e.candidateId ∈ m.scores.map (·.1) then
      panelError (label ++ " panel has duplicate candidate ".toList ++ e.candidateId)
    else .ok { m with
      scores := m.scores ++ [(e.candidateId, score)]
      evidence := m.evidence ++ [(e.candidateId, e.evidenceId)]
      cost := m.cost + e.budgetUsedUsd }
  | _, _ => panelError (label ++ " panel contains no-verdict evidence (".toList ++ e.candidateId ++ ")".toList)

def inOrder (l : List Text) : List Text := l.mergeSort fun a b => decide (a ≤ b)

def scoreMap (label : Text) : List PanelEvidence → Except PanelFault ScoreMap
  | [] => panelError (label ++ " panel is empty".toList)
  | first :: rest =>
    let namespaces := ((first :: rest).map (·.scoreNamespace)).dedup
    if namespaces.length ≠ 1 then
      panelError (label ++ " panel mixes ".toList ++ AssessmentGuard.showNat namespaces.length ++ " namespaces".toList)
    else (first :: rest).foldlM (scoreStep label) {
      scoreNamespace := first.scoreNamespace
      refs := inOrder ((first :: rest).map (·.evidenceId)).dedup }

def lookupIn {α : Type} (default : α) (d : List (Text × α)) (c : Text) : α :=
  ((d.find? (·.1 = c)).map (·.2)).getD default

structure SquareRoot where
  sqrt : ℚ → ℚ
  sqrt_mul_self : ∀ x, 0 ≤ x → sqrt (x * x) = x

def correlation (root : SquareRoot) (rx ry : List ℚ) : Option ℚ :=
  let meanX := rx.sum / rx.length
  let meanY := ry.sum / rx.length
  let cov := ((rx.zip ry).map fun p => (p.1 - meanX) * (p.2 - meanY)).sum
  let varX := (rx.map fun a => (a - meanX) ^ 2).sum
  let varY := (ry.map fun b => (b - meanY) ^ 2).sum
  if varX = 0 ∨ varY = 0 then none else some (cov / root.sqrt (varX * varY))

def spearman (root : SquareRoot) (xs ys : List ℚ) : Option ℚ :=
  if xs.length < 3 then none else correlation root (ranks xs) (ranks ys)

def Direction.sign : Direction → ℚ
  | .maximize => 1
  | .minimize => -1

def laterPairs : List Text → List (Text × Text)
  | [] => []
  | a :: rest => rest.map (a, ·) ++ laterPairs rest

section Statistics
variable (sign : ℚ) (shared : List Text) (old new : Text → ℚ)

def rankKey (scores : Text → ℚ) (c : Text) : ℚ ×ₗ Text := toLex (-sign * scores c, c)

def ordering (scores : Text → ℚ) : List Text :=
  shared.mergeSort fun a b => decide (rankKey sign scores a ≤ rankKey sign scores b)

def championOf (scores : Text → ℚ) : Text := (ordering sign shared scores).headD []

def topOverlap (k : ℕ) : ℚ :=
  ((((ordering sign shared old).take k).dedup.filter (· ∈ (ordering sign shared new).take k)).length : ℚ) / k

def beats (scores : Text → ℚ) (champion candidate : Text) : Bool := 0 < sign * (scores candidate - scores champion)

def flipped : List Text :=
  let champion := championOf sign shared old
  shared.filter fun c => c ≠ champion && beats sign old champion c != beats sign new champion c

def inversions : List (Text × Text) :=
  (laterPairs shared).filter fun p => sign * (old p.1 - old p.2) * (sign * (new p.1 - new p.2)) < 0

end Statistics

def sharedOf (o n : ScoreMap) : List Text := inOrder ((o.scores.map (·.1)).filter (· ∈ n.scores.map (·.1)))

def reportOf (root : SquareRoot) (o n : ScoreMap) (topK : ℕ) (direction : Direction) : MigrationReport :=
  let shared := sharedOf o n
  let old := lookupIn 0 o.scores
  let new := lookupIn 0 n.scores
  let championOld := championOf direction.sign shared old
  let championNew := championOf direction.sign shared new
  let k := min topK shared.length
  let flips := flipped direction.sign shared old new
  let inverted := inversions direction.sign shared old new
  { oldNamespace := o.scoreNamespace
    newNamespace := n.scoreNamespace
    nPairs := shared.length
    spearman := spearman root (shared.map old) (shared.map new)
    championOld := championOld
    championNew := championNew
    championOldFitness := old championOld
    championNewFitness := new championNew
    championOldEvidenceId := lookupIn [] o.evidence championOld
    championNewEvidenceId := lookupIn [] n.evidence championNew
    championChanged := championOld ≠ championNew
    topK := k
    topKOverlap := topOverlap direction.sign shared old new k
    decisionFlips := flips.length
    flippedCandidates := flips
    pairwiseInversions := inverted.length
    invertedPairsSample := inverted.take 5
    costOldUsd := o.cost
    costNewUsd := n.cost
    evidenceRefs := (o.refs ++ n.refs.filter (· ∉ o.refs)) }

def compareMeasurements (root : SquareRoot) (old new : List PanelEvidence) (topK : ℕ) (direction : Direction) :
    Except PanelFault MigrationReport := do
  let o ← scoreMap "old".toList old
  let n ← scoreMap "new".toList new
  if o.scoreNamespace = n.scoreNamespace then
    panelError ("old and new panels share one namespace — nothing migrated; ".toList ++
      "same-namespace comparison belongs to PromotionPolicy".toList)
  else if (sharedOf o n).length < 2 then
    panelError ("panel needs at least 2 shared candidates, got ".toList ++
      AssessmentGuard.showNat (sharedOf o n).length)
  -- no overlap of two empty lists
  else if topK = 0 then .error .zeroDivision
  else .ok (reportOf root o n topK direction)

def Sound (e : PanelEvidence) : Prop := e.evaluationValid = true ∧ e.fitness.isSome ∧ e.admissible ≠ some false

def ScoreMap.extend (m : ScoreMap) (es : List PanelEvidence) : ScoreMap :=
  { m with
    scores := m.scores ++ es.map fun e => (e.candidateId, e.fitness.getD 0)
    evidence := m.evidence ++ es.map fun e => (e.candidateId, e.evidenceId)
    cost := m.cost + (es.map (·.budgetUsedUsd)).sum }

theorem ScoreMap.extend_nil (m : ScoreMap) : m.extend [] = m := by
  simp [ScoreMap.extend]

theorem ScoreMap.extend_cons (m : ScoreMap) (e : PanelEvidence) (es : List PanelEvidence) :
    m.extend (e :: es) = (m.extend [e]).extend es := by
  simp [ScoreMap.extend, add_assoc]

variable {label : Text} {m m' : ScoreMap}

theorem scoreStep_ok_iff {e : PanelEvidence} :
    scoreStep label m e = .ok m' ↔ Sound e ∧ e.candidateId ∉ m.scores.map (·.1) ∧ m' = m.extend [e] := by
  unfold scoreStep Sound
  cases hvalid : e.evaluationValid with
  | false => simp [panelError]
  | true =>
    cases hfitness : e.fitness with
    | none => simp [panelError]
    | some score =>
      have hextend : m.extend [e] = { m with
          scores := m.scores ++ [(e.candidateId, score)]
          evidence := m.evidence ++ [(e.candidateId, e.evidenceId)]
          cost := m.cost + e.budgetUsedUsd } := by
        simp [ScoreMap.extend, hfitness]
      dsimp only
      rw [hextend]
      split
      · next hadm => simp [panelError, hadm]
      · next hadm =>
        split
        · next hmem => simp [panelError, hmem]
        · next hmem => simp only [Except.ok.injEq, Option.isSome_some, hadm, hmem, ne_eq, not_false_eq_true, and_self,
            true_and, eq_comm]

theorem foldlM_scoreStep_ok_iff {es : List PanelEvidence} (hm : (m.scores.map (·.1)).Nodup) :
    es.foldlM (scoreStep label) m = .ok m' ↔
      (∀ e ∈ es, Sound e) ∧ (m.scores.map (·.1) ++ es.map (·.candidateId)).Nodup ∧ m' = m.extend es := by
  induction es generalizing m with
  | nil =>
    rw [m.extend_nil, List.foldlM_nil]
    simpa [pure, Except.pure, eq_comm] using fun _ => hm
  | cons e es ih =>
    have hkeys : (m.extend [e]).scores.map (·.1) = m.scores.map (·.1) ++ [e.candidateId] := by
      simp [ScoreMap.extend]
    rw [List.foldlM_cons, m.extend_cons, List.map_cons, List.append_cons, ← hkeys, List.forall_mem_cons]
    cases hstep : scoreStep label m e with
    | error f =>
      refine iff_of_false (fun h => nomatch h) fun h => ?_
      have hnot : e.candidateId ∉ m.scores.map (·.1) := by
        have hnodup := h.2.1
        rw [hkeys, List.nodup_append] at hnodup
        exact fun hmem => (List.nodup_append.mp hnodup.1).2.2 _ hmem _ (List.mem_singleton_self _) rfl
      rw [scoreStep_ok_iff.mpr ⟨h.1.1, hnot, rfl⟩] at hstep
      exact nomatch hstep
    | ok m₁ =>
      obtain ⟨hsound, hnew, rfl⟩ := scoreStep_ok_iff.mp hstep
      have hnodup : ((m.extend [e]).scores.map (·.1)).Nodup := by
        rw [hkeys, List.nodup_append]
        refine ⟨hm, List.nodup_singleton _, fun a ha b hb => ?_⟩
        rw [List.mem_singleton.mp hb]
        rintro rfl
        exact hnew ha
      change es.foldlM (scoreStep label) (m.extend [e]) = .ok m' ↔ _
      rw [ih hnodup]
      simp [hsound]

theorem length_dedup_eq_one_iff {α : Type} [DecidableEq α] {l : List α} {a : α} (ha : a ∈ l) :
    l.dedup.length = 1 ↔ ∀ x ∈ l, x = a := by
  constructor
  · intro h x hx
    obtain ⟨b, hb⟩ := List.length_eq_one_iff.mp h
    have hmem : ∀ y ∈ l, y = b := by
      intro y hy
      rw [← List.mem_dedup, hb] at hy
      exact List.mem_singleton.mp hy
    rw [hmem x hx, hmem a ha]
  · intro h
    have hperm : l.dedup.Perm [a] := by
      rw [List.perm_ext_iff_of_nodup (List.nodup_dedup l) (List.nodup_singleton a)]
      intro x
      rw [List.mem_dedup, List.mem_singleton]
      exact ⟨h x, fun hx => hx ▸ ha⟩
    rw [hperm.length_eq, List.length_singleton]

/-- A panel is accepted when it is not empty, of one namespace, all sound, and has one entry for each candidate. -/
theorem scoreMap_ok_iff {es : List PanelEvidence} : scoreMap label es = .ok m ↔
    es ≠ [] ∧ (∀ e ∈ es, e.scoreNamespace = m.scoreNamespace) ∧ (∀ e ∈ es, Sound e) ∧ (es.map (·.candidateId)).Nodup ∧
      m.scores = es.map (fun e => (e.candidateId, e.fitness.getD 0)) ∧
      m.evidence = es.map (fun e => (e.candidateId, e.evidenceId)) ∧ m.cost = (es.map (·.budgetUsedUsd)).sum ∧
      m.refs = inOrder (es.map (·.evidenceId)).dedup := by
  cases es with
  | nil => simp [scoreMap, panelError]
  | cons first rest =>
    have hone := length_dedup_eq_one_iff (l := (first :: rest).map (·.scoreNamespace)) List.mem_cons_self
    rw [List.forall_mem_map] at hone
    rw [scoreMap]
    split
    · next hmixed =>
      refine iff_of_false (by simp [panelError]) fun h => hmixed (hone.mpr fun e he => ?_)
      rw [h.2.1 e he]
      exact (h.2.1 first List.mem_cons_self).symm
    · next hsame =>
      rw [not_not, hone] at hsame
      rw [foldlM_scoreStep_ok_iff (by simp)]
      constructor
      · rintro ⟨hsound, hnodup, rfl⟩
        refine ⟨List.cons_ne_nil _ _, hsame, hsound, by simpa using hnodup, ?_⟩
        simp [ScoreMap.extend]
      · rintro ⟨-, hspace, hsound, hnodup, hscores, hevidence, hcost, hrefs⟩
        refine ⟨hsound, by simpa using hnodup, ?_⟩
        refine ScoreMap.ext (hspace first List.mem_cons_self).symm (hscores.trans ?_) (hevidence.trans ?_)
          (hcost.trans ?_) hrefs
        · exact (List.nil_append _).symm
        · exact (List.nil_append _).symm
        · exact (zero_add _).symm

theorem lookupIn_of_mem {α : Type} {default x : α} {d : List (Text × α)} {c : Text} (hd : (d.map (·.1)).Nodup)
    (h : (c, x) ∈ d) : lookupIn default d c = x := by
  unfold lookupIn
  cases hfind : d.find? (·.1 = c) with
  | none => exact absurd (List.find?_eq_none.mp hfind _ h) (by simp)
  | some p =>
    have hp : p.1 = c := by simpa using List.find?_some hfind
    have hpair := List.inj_on_of_nodup_map hd (List.mem_of_find?_eq_some hfind) h hp
    simp [hpair]

def Scored (panel : List PanelEvidence) (c : Text) (q : ℚ) : Prop :=
  ∃ e ∈ panel, e.candidateId = c ∧ e.fitness = some q

section Accepted
variable {es : List PanelEvidence} (h : scoreMap label es = .ok m)
include h

theorem keys_scores : m.scores.map (·.1) = es.map (·.candidateId) := by
  obtain ⟨-, -, -, -, hscores, -⟩ := scoreMap_ok_iff.mp h
  rw [hscores, List.map_map]
  rfl

theorem nodup_keys_scores : (m.scores.map (·.1)).Nodup := by
  rw [keys_scores h]
  exact (scoreMap_ok_iff.mp h).2.2.2.1

theorem scored_iff {c : Text} {q : ℚ} :
    Scored es c q ↔ c ∈ m.scores.map (·.1) ∧ lookupIn 0 m.scores c = q := by
  obtain ⟨-, -, hsound, -, hscores, -⟩ := scoreMap_ok_iff.mp h
  constructor
  · rintro ⟨e, he, rfl, hq⟩
    have hmem : (e.candidateId, q) ∈ m.scores := by
      rw [hscores]
      exact List.mem_map.mpr ⟨e, he, by rw [hq, Option.getD_some]⟩
    exact ⟨List.mem_map_of_mem hmem, lookupIn_of_mem (nodup_keys_scores h) hmem⟩
  · rintro ⟨hc, rfl⟩
    obtain ⟨p, hp, rfl⟩ := List.mem_map.mp hc
    have hlookup : lookupIn 0 m.scores p.1 = p.2 := lookupIn_of_mem (nodup_keys_scores h) hp
    rw [hscores] at hp
    obtain ⟨e, he, rfl⟩ := List.mem_map.mp hp
    refine ⟨e, he, rfl, ?_⟩
    obtain ⟨q, hq⟩ := Option.isSome_iff_exists.mp (hsound e he).2.1
    rw [hlookup, hq, Option.getD_some]

end Accepted

theorem mem_sharedOf {o n : ScoreMap} {c : Text} :
    c ∈ sharedOf o n ↔ c ∈ o.scores.map (·.1) ∧ c ∈ n.scores.map (·.1) := by
  rw [sharedOf, inOrder, List.mem_mergeSort, List.mem_filter, decide_eq_true_eq]

theorem nodup_sharedOf {o n : ScoreMap} (ho : (o.scores.map (·.1)).Nodup) : (sharedOf o n).Nodup := by
  rw [sharedOf, inOrder, (List.mergeSort_perm _ _).nodup_iff]
  exact ho.filter _

section Statistics
variable {sign : ℚ} {shared : List Text} {old new scores : Text → ℚ} {c : Text}

theorem ordering_pairwise : (ordering sign shared scores).Pairwise fun a b => rankKey sign scores a ≤ rankKey sign scores b := by
  have hpairwise := @List.pairwise_mergeSort _ (fun a b => decide (rankKey sign scores a ≤ rankKey sign scores b))
    (fun a b c => by simpa using le_trans) (fun a b => by simpa using le_total _ _) shared
  rw [ordering]
  simpa only [decide_eq_true_eq] using hpairwise

theorem ordering_perm : (ordering sign shared scores).Perm shared := List.mergeSort_perm _ _

theorem rankKey_le {a b : Text} (h : rankKey sign scores a ≤ rankKey sign scores b) :
    sign * scores b ≤ sign * scores a := by
  have hfirst : -sign * scores a ≤ -sign * scores b := by
    rw [rankKey, rankKey, Prod.Lex.toLex_le_toLex] at h
    cases h with
    | inl hlt => exact hlt.le
    | inr heq => exact heq.1.le
  linarith

theorem rankKey_injective : Function.Injective (rankKey sign scores) := by
  intro a b h
  exact congrArg Prod.snd (toLex.injective h)

theorem championOf_mem (h : shared ≠ []) : championOf sign shared scores ∈ shared := by
  rw [← ordering_perm |>.mem_iff, championOf]
  cases hordering : ordering sign shared scores with
  | nil =>
    have hperm : (ordering sign shared scores).Perm shared := ordering_perm
    rw [hordering] at hperm
    exact absurd hperm.nil_eq.symm h
  | cons a rest => exact List.mem_cons_self

theorem le_championOf (hc : c ∈ shared) : sign * scores c ≤ sign * scores (championOf sign shared scores) := by
  rw [← ordering_perm |>.mem_iff] at hc
  have hpairwise : (ordering sign shared scores).Pairwise fun a b => rankKey sign scores a ≤ rankKey sign scores b :=
    ordering_pairwise
  rw [championOf]
  cases hordering : ordering sign shared scores with
  | nil => rw [hordering] at hc; exact nomatch hc
  | cons a rest =>
    rw [hordering] at hc hpairwise
    rw [List.headD_cons]
    rw [List.mem_cons] at hc
    cases hc with
    | inl hself => rw [hself]
    | inr hrest => exact rankKey_le (List.rel_of_pairwise_cons hpairwise hrest)

theorem flipped_spec (hc : c ∈ flipped sign shared old new) : c ∈ shared ∧
    sign * old c ≤ sign * old (championOf sign shared old) ∧
      sign * new (championOf sign shared old) < sign * new c := by
  rw [flipped, List.mem_filter, Bool.and_eq_true] at hc
  have hle : sign * old c ≤ sign * old (championOf sign shared old) := le_championOf hc.1
  have hbehind : beats sign old (championOf sign shared old) c = false := by
    rw [beats, decide_eq_false_iff_not]
    linarith
  have hnow : beats sign new (championOf sign shared old) c = true := by
    have hne := hc.2.2
    rw [hbehind] at hne
    simpa using hne
  rw [beats, decide_eq_true_eq] at hnow
  exact ⟨hc.1, hle, by linarith⟩

theorem mem_laterPairs {l : List Text} {a b : Text} (ha : a ∈ l) (hb : b ∈ l) (hne : a ≠ b) :
    (a, b) ∈ laterPairs l ∨ (b, a) ∈ laterPairs l := by
  induction l with
  | nil => exact nomatch ha
  | cons d rest ih =>
    simp only [laterPairs, List.mem_append, List.mem_map, Prod.mk.injEq]
    rw [List.mem_cons] at ha hb
    cases ha with
    | inl ha =>
      cases hb with
      | inl hb => exact absurd (ha.trans hb.symm) hne
      | inr hb => exact .inl (.inl ⟨b, hb, ha.symm, rfl⟩)
    | inr ha =>
      cases hb with
      | inl hb => exact .inr (.inl ⟨a, ha, hb.symm, rfl⟩)
      | inr hb =>
        cases ih ha hb with
        | inl h => exact .inl (.inr h)
        | inr h => exact .inr (.inr h)

def Agree (sign : ℚ) (shared : List Text) (old new : Text → ℚ) : Prop :=
  ∀ a ∈ shared, ∀ b ∈ shared, a ≠ b →
    (sign * old a < sign * old b ↔ sign * new a < sign * new b) ∧ old a ≠ old b ∧ new a ≠ new b

theorem agree_of_no_inversion (hsign : sign ≠ 0) (hnone : inversions sign shared old new = [])
    (htie : ∀ a ∈ shared, ∀ b ∈ shared, a ≠ b → old a ≠ old b ∧ new a ≠ new b) : Agree sign shared old new := by
  intro a ha b hb hne
  obtain ⟨hold, hnew⟩ := htie a ha b hb hne
  refine ⟨?_, hold, hnew⟩
  have hproduct : ∀ x y, (x, y) ∈ laterPairs shared → 0 ≤ sign * (old x - old y) * (sign * (new x - new y)) := by
    intro x y hxy
    have hnot := List.filter_eq_nil_iff.mp hnone _ hxy
    simpa using hnot
  have hab : 0 ≤ (sign * old a - sign * old b) * (sign * new a - sign * new b) := by
    cases mem_laterPairs ha hb hne with
    | inl h =>
      have hp := hproduct a b h
      linarith
    | inr h =>
      have hp := hproduct b a h
      linarith
  have hold' : sign * old a ≠ sign * old b := fun h => hold (mul_left_cancel₀ hsign h)
  have hnew' : sign * new a ≠ sign * new b := fun h => hnew (mul_left_cancel₀ hsign h)
  rw [mul_nonneg_iff] at hab
  cases hab with
  | inl h =>
    have h1 : sign * old b < sign * old a := lt_of_le_of_ne (by linarith) hold'.symm
    have h2 : sign * new b < sign * new a := lt_of_le_of_ne (by linarith) hnew'.symm
    exact iff_of_false h1.not_gt h2.not_gt
  | inr h =>
    have h1 : sign * old a < sign * old b := lt_of_le_of_ne (by linarith) hold'
    have h2 : sign * new a < sign * new b := lt_of_le_of_ne (by linarith) hnew'
    exact iff_of_true h1 h2

theorem Agree.rankKey_le (h : Agree sign shared old new) {a b : Text} (ha : a ∈ shared) (hb : b ∈ shared)
    (hle : rankKey sign old a ≤ rankKey sign old b) : rankKey sign new a ≤ rankKey sign new b := by
  by_cases hne : a = b
  · rw [hne]
  · obtain ⟨hiff, hold, -⟩ := h a ha b hb hne
    have hfirst := Research.rankKey_le hle
    have hnew : ¬sign * new a < sign * new b := by
      rw [← hiff]
      exact hfirst.not_gt
    have hne' := (h a ha b hb hne).2.2
    rw [rankKey, rankKey, Prod.Lex.toLex_le_toLex]
    by_cases hzero : sign = 0
    · subst hzero
      rw [rankKey, rankKey, Prod.Lex.toLex_le_toLex] at hle
      simpa using hle
    · refine .inl ?_
      have hdiffer : sign * new b ≠ sign * new a := fun heq => hne' (mul_left_cancel₀ hzero heq.symm)
      have hlt := lt_of_le_of_ne (not_lt.mp hnew) hdiffer
      linarith

theorem Agree.ordering_eq (h : Agree sign shared old new) : ordering sign shared old = ordering sign shared new := by
  have hold : (ordering sign shared old).Pairwise fun a b => rankKey sign new a ≤ rankKey sign new b := by
    refine ordering_pairwise.imp_of_mem fun ha hb hle => ?_
    exact h.rankKey_le (ordering_perm.mem_iff.mp ha) (ordering_perm.mem_iff.mp hb) hle
  have hanti : ∀ a b, a ∈ ordering sign shared old → b ∈ ordering sign shared new →
      rankKey sign new a ≤ rankKey sign new b → rankKey sign new b ≤ rankKey sign new a → a = b :=
    fun a b _ _ hab hba => rankKey_injective (le_antisymm hab hba)
  exact List.Perm.eq_of_pairwise hanti hold ordering_pairwise (ordering_perm.trans ordering_perm.symm)

theorem Agree.ranks_eq (h : Agree sign shared old new) (hsign : sign ≠ 0) :
    ranks (shared.map old) = ranks (shared.map new) := by
  have hcompare : ∀ a ∈ shared, ∀ b ∈ shared, a ≠ b → (old a < old b ↔ new a < new b) := by
    intro a ha b hb hne
    cases lt_or_gt_of_ne hsign with
    | inl hneg =>
      have hiff := (h b hb a ha hne.symm).1
      rwa [mul_lt_mul_left_of_neg hneg, mul_lt_mul_left_of_neg hneg] at hiff
    | inr hpos =>
      have hiff := (h a ha b hb hne).1
      rwa [mul_lt_mul_iff_right₀ hpos, mul_lt_mul_iff_right₀ hpos] at hiff
  rw [Ranks.ranks_eq, Ranks.ranks_eq, List.map_map, List.map_map]
  refine List.map_congr_left fun c hc => rankIn_congr fun a ha => ?_
  by_cases hne : a = c
  · simp [hne]
  · obtain ⟨-, hold, hnew⟩ := h a ha c hc hne
    exact ⟨hcompare a ha c hc hne, iff_of_false hold hnew⟩

theorem Agree.topOverlap_eq (h : Agree sign shared old new) (hshared : shared.Nodup) {k : ℕ} (hpos : 0 < k)
    (hk : k ≤ shared.length) : topOverlap sign shared old new k = 1 := by
  have hnodup : ((ordering sign shared new).take k).Nodup :=
    (ordering_perm.nodup_iff.mpr hshared).sublist (List.take_sublist k _)
  have hall : ((ordering sign shared new).take k).filter (· ∈ (ordering sign shared new).take k) =
      (ordering sign shared new).take k := List.filter_eq_self.mpr fun c hc => by simpa using hc
  rw [topOverlap, h.ordering_eq, List.dedup_eq_self.mpr hnodup, hall, List.length_take, ordering_perm.length_eq,
    min_eq_left hk]
  exact div_self (by exact_mod_cast hpos.ne')

theorem rankKey_neg : rankKey (-sign) (fun c => -scores c) = rankKey sign scores := by
  funext c
  simp [rankKey]

theorem ordering_neg : ordering (-sign) shared (fun c => -scores c) = ordering sign shared scores := by
  rw [ordering, ordering, rankKey_neg]

theorem championOf_neg : championOf (-sign) shared (fun c => -scores c) = championOf sign shared scores := by
  rw [championOf, championOf, ordering_neg]

theorem topOverlap_neg (k : ℕ) : topOverlap (-sign) shared (fun c => -old c) (fun c => -new c) k =
    topOverlap sign shared old new k := by
  rw [topOverlap, topOverlap, ordering_neg, ordering_neg]

theorem beats_neg (champion : Text) : beats (-sign) (fun c => -scores c) champion = beats sign scores champion := by
  funext c
  rw [beats, beats, decide_eq_decide, show -sign * (-scores c - -scores champion) = sign * (scores c - scores champion) by ring]

theorem flipped_neg : flipped (-sign) shared (fun c => -old c) (fun c => -new c) = flipped sign shared old new := by
  rw [flipped, flipped, championOf_neg, beats_neg, beats_neg]

theorem inversions_neg : inversions (-sign) shared (fun c => -old c) (fun c => -new c) = inversions sign shared old new := by
  rw [inversions, inversions]
  refine List.filter_congr fun p _ => ?_
  rw [decide_eq_decide, show -sign * (-old p.1 - -old p.2) * (-sign * (-new p.1 - -new p.2)) =
    sign * (old p.1 - old p.2) * (sign * (new p.1 - new p.2)) by ring]

end Statistics

section Correlation
variable (root : SquareRoot)

theorem correlation_self (rx : List ℚ) : correlation root rx rx = none ∨ correlation root rx rx = some 1 := by
  have hcov : ∀ m : ℚ, ((rx.zip rx).map fun p => (p.1 - m) * (p.2 - m)).sum = (rx.map fun a => (a - m) ^ 2).sum := by
    intro m
    congr 1
    induction rx with
    | nil => rfl
    | cons a rx ih => rw [List.zip_cons_cons, List.map_cons, List.map_cons, ih, sq]
  unfold correlation
  dsimp only
  rw [hcov]
  generalize hvar : (rx.map fun a => (a - rx.sum / rx.length) ^ 2).sum = var
  have hpos : 0 ≤ var := by
    rw [← hvar]
    refine List.sum_nonneg fun x hx => ?_
    obtain ⟨a, -, rfl⟩ := List.mem_map.mp hx
    exact sq_nonneg _
  split
  · exact .inl rfl
  · next hne =>
    rw [root.sqrt_mul_self var hpos, div_self (by tauto)]
    exact .inr rfl

theorem sum_map_sub_left (c : ℚ) (l : List ℚ) : (l.map (c - ·)).sum = l.length * c - l.sum := by
  induction l with
  | nil => simp
  | cons a l ih =>
    rw [List.map_cons, List.sum_cons, ih, List.sum_cons, List.length_cons]
    push_cast
    ring

theorem correlation_turned (c : ℚ) {rx ry : List ℚ} (hlen : rx.length = ry.length) :
    correlation root (rx.map (c - ·)) (ry.map (c - ·)) = correlation root rx ry := by
  by_cases hzero : rx.length = 0
  · rw [List.length_eq_zero_iff] at hzero
    rw [hzero, List.length_nil] at hlen
    rw [hzero, List.length_eq_zero_iff.mp hlen.symm, List.map_nil]
  · have hne : (rx.length : ℚ) ≠ 0 := by exact_mod_cast hzero
    have hmean : ∀ l : List ℚ, l.length = rx.length → (l.map (c - ·)).sum / rx.length = c - l.sum / rx.length := by
      intro l hl
      rw [sum_map_sub_left, hl, sub_div, mul_div_cancel_left₀ c hne]
    have hterm : ∀ a b m m' : ℚ, (c - a - (c - m)) * (c - b - (c - m')) = (a - m) * (b - m') := by
      intro a b m m'
      ring
    unfold correlation
    dsimp only
    rw [List.length_map, hmean rx rfl, hmean ry hlen.symm, List.zip_map, List.map_map, List.map_map, List.map_map]
    simp only [Function.comp_def, Prod.map_fst, Prod.map_snd, hterm, sq]

theorem length_ranks {α : Type} [LinearOrder α] (l : List α) : (ranks l).length = l.length := by
  rw [Ranks.ranks_eq, List.length_map]

theorem spearman_neg {xs ys : List ℚ} (hlen : xs.length = ys.length) :
    spearman root (xs.map (- ·)) (ys.map (- ·)) = spearman root xs ys := by
  have hanti : StrictAnti fun x : ℚ => -x := fun a b h => neg_lt_neg h
  rw [spearman, spearman, List.length_map, ranks_turned hanti, ranks_turned hanti, ← hlen,
    correlation_turned root _ (by rw [length_ranks, length_ranks, hlen])]

theorem spearman_of_ranks {xs ys : List ℚ} (h : ranks xs = ranks ys) :
    spearman root xs ys = none ∨ spearman root xs ys = some 1 := by
  rw [spearman, ← h]
  split
  · exact .inl rfl
  · exact correlation_self root (ranks xs)

end Correlation

end EvoHarness.Research
