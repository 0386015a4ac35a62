import EvoHarness.Research.MigrationPanel
import Mathlib.Data.Rat.Sqrt

/-! The report on two panels: what it says of their scores, and that the direction of the scores does
not matter. -/
namespace EvoHarness.Research
open PyText Ranks

def Direction.opposite : Direction → Direction
  | .maximize => .minimize
  | .minimize => .maximize

theorem Direction.sign_opposite (d : Direction) : d.opposite.sign = -d.sign := by
  cases d <;> simp [Direction.opposite, Direction.sign]

theorem Direction.sign_ne_zero (d : Direction) : d.sign ≠ 0 := by
  cases d <;> simp [Direction.sign]

variable {label : Text} {m : ScoreMap} {root : SquareRoot} {old new old' new' : List PanelEvidence} {topK : ℕ}
  {direction : Direction} {report : MigrationReport}

def SharedScores (old new : List PanelEvidence) (c : Text) (x y : ℚ) : Prop := Scored old c x ∧ Scored new c y

theorem compareMeasurements_ok_iff : compareMeasurements root old new topK direction = .ok report ↔
    ∃ o n, scoreMap "old".toList old = .ok o ∧ scoreMap "new".toList new = .ok n ∧ o.scoreNamespace ≠ n.scoreNamespace ∧
      2 ≤ (sharedOf o n).length ∧ topK ≠ 0 ∧ report = reportOf root o n topK direction := by
  unfold compareMeasurements
  cases ho : scoreMap "old".toList old with
  | error f => exact iff_of_false (fun h => nomatch h) (fun ⟨_, _, h, _⟩ => nomatch h)
  | ok o =>
    cases hn : scoreMap "new".toList new with
    | error f => exact iff_of_false (fun h => nomatch h) (fun ⟨_, _, _, h, _⟩ => nomatch h)
    | ok n =>
      change (if _ then _ else if _ then _ else if _ then _ else _) = _ ↔ _
      simp only [Except.ok.injEq, exists_and_left, exists_eq_left']
      split
      · next hsame => exact iff_of_false (fun h => nomatch h) fun h => h.1 hsame
      · next hsame =>
        split
        · next hfew => exact iff_of_false (fun h => nomatch h) fun h => absurd h.2.1 (by omega)
        · next hfew =>
          split
          · next hzero => exact iff_of_false (fun h => nomatch h) fun h => h.2.2.1 hzero
          · next hzero =>
            rw [Except.ok.injEq]
            exact ⟨fun h => ⟨hsame, by omega, hzero, h.symm⟩, fun h => h.2.2.2.symm⟩

theorem sharedScores_iff {o n : ScoreMap} (ho : scoreMap "old".toList old = .ok o)
    (hn : scoreMap "new".toList new = .ok n) {c : Text} {x y : ℚ} :
    SharedScores old new c x y ↔ c ∈ sharedOf o n ∧ lookupIn 0 o.scores c = x ∧ lookupIn 0 n.scores c = y := by
  rw [SharedScores, scored_iff ho, scored_iff hn, mem_sharedOf]
  tauto

structure Negated (e e' : PanelEvidence) : Prop where
  candidateId : e'.candidateId = e.candidateId
  scoreNamespace : e'.scoreNamespace = e.scoreNamespace
  evaluationValid : e'.evaluationValid = e.evaluationValid
  admissible : e'.admissible = e.admissible
  fitness : e'.fitness = e.fitness.map (- ·)
  budgetUsedUsd : e'.budgetUsedUsd = e.budgetUsedUsd

theorem Negated.sound {e e' : PanelEvidence} (h : Negated e e') (hs : Sound e) : Sound e' := by
  rw [Sound, h.evaluationValid, h.admissible, h.fitness, Option.isSome_map]
  exact hs

theorem map_eq_of_negated {β : Type} {f : PanelEvidence → β} (hf : ∀ e e', Negated e e' → f e' = f e)
    (h : List.Forall₂ Negated old old') : old'.map f = old.map f := by
  induction h with
  | nil => rfl
  | cons he _ ih => rw [List.map_cons, List.map_cons, hf _ _ he, ih]

theorem exists_negated (h : List.Forall₂ Negated old old') {e' : PanelEvidence} (he' : e' ∈ old') :
    ∃ e ∈ old, Negated e e' := by
  induction h with
  | nil => exact nomatch he'
  | @cons a a' _ _ ha _ ih =>
    rw [List.mem_cons] at he'
    cases he' with
    | inl hself => exact ⟨a, List.mem_cons_self, hself ▸ ha⟩
    | inr htail =>
      obtain ⟨e, he, hrel⟩ := ih htail
      exact ⟨e, List.mem_cons_of_mem _ he, hrel⟩

theorem scores_negated (h : List.Forall₂ Negated old old') : (old'.map fun e => (e.candidateId, e.fitness.getD 0)) =
    (old.map fun e => (e.candidateId, e.fitness.getD 0)).map fun p => (p.1, -p.2) := by
  induction h with
  | nil => rfl
  | @cons e e' _ _ he _ ih =>
    rw [List.map_cons, List.map_cons, List.map_cons, ih, he.candidateId, he.fitness]
    cases e.fitness <;> simp

theorem scoreMap_negated (h : scoreMap label old = .ok m) (hneg : List.Forall₂ Negated old old') :
    ∃ m', scoreMap label old' = .ok m' ∧ m'.scoreNamespace = m.scoreNamespace ∧
      m'.scores = m.scores.map (fun p => (p.1, -p.2)) ∧ m'.cost = m.cost := by
  obtain ⟨hne, hspace, hsound, hnodup, hscores, -, hcost, -⟩ := scoreMap_ok_iff.mp h
  have hforall : ∀ e' ∈ old', ∃ e ∈ old, Negated e e' := fun _ he' => exists_negated hneg he'
  refine ⟨{
      scoreNamespace := m.scoreNamespace
      scores := m.scores.map fun p => (p.1, -p.2)
      evidence := old'.map fun e => (e.candidateId, e.evidenceId)
      cost := m.cost
      refs := inOrder (old'.map (·.evidenceId)).dedup }, scoreMap_ok_iff.mpr ⟨?_, ?_, ?_, ?_, ?_, rfl, ?_, rfl⟩, rfl, rfl, rfl⟩
  · rintro rfl
    exact hne (List.forall₂_nil_right_iff.mp hneg)
  · intro e' he'
    obtain ⟨e, he, hrel⟩ := hforall e' he'
    rw [hrel.scoreNamespace, hspace e he]
  · intro e' he'
    obtain ⟨e, he, hrel⟩ := hforall e' he'
    exact hrel.sound (hsound e he)
  · rwa [map_eq_of_negated (fun _ _ h => h.candidateId) hneg]
  · rw [hscores, scores_negated hneg]
  · rw [hcost, map_eq_of_negated (fun _ _ h => h.budgetUsedUsd) hneg]

theorem lookupIn_negated (d : List (Text × ℚ)) (c : Text) :
    lookupIn 0 (d.map fun p => (p.1, -p.2)) c = -lookupIn 0 d c := by
  unfold lookupIn
  rw [List.find?_map]
  change ((Option.map _ (d.find? fun p => decide (p.1 = c))).map _).getD 0 = _
  cases d.find? fun p => decide (p.1 = c) <;> simp

/-- The report on the negated panels, in the other direction: the ids are those of the negated evidence. -/
theorem reportOf_negated {o n o' n' : ScoreMap} (hospace : o'.scoreNamespace = o.scoreNamespace)
    (hnspace : n'.scoreNamespace = n.scoreNamespace) (hoscores : o'.scores = o.scores.map fun p => (p.1, -p.2))
    (hnscores : n'.scores = n.scores.map fun p => (p.1, -p.2)) (hocost : o'.cost = o.cost) (hncost : n'.cost = n.cost) :
    sharedOf o' n' = sharedOf o n ∧ reportOf root o' n' topK direction.opposite =
      { reportOf root o n topK direction with
        championOldFitness := -(reportOf root o n topK direction).championOldFitness
        championNewFitness := -(reportOf root o n topK direction).championNewFitness
        championOldEvidenceId := lookupIn [] o'.evidence (reportOf root o n topK direction).championOld
        championNewEvidenceId := lookupIn [] n'.evidence (reportOf root o n topK direction).championNew
        evidenceRefs := (reportOf root o' n' topK direction.opposite).evidenceRefs } := by
  have hokeys : o'.scores.map (·.1) = o.scores.map (·.1) := by rw [hoscores, List.map_map]; rfl
  have hnkeys : n'.scores.map (·.1) = n.scores.map (·.1) := by rw [hnscores, List.map_map]; rfl
  have hshared : sharedOf o' n' = sharedOf o n := by rw [sharedOf, sharedOf, hokeys, hnkeys]
  have ho : lookupIn 0 o'.scores = fun c => -lookupIn 0 o.scores c := by
    rw [hoscores]
    exact funext fun c => lookupIn_negated _ c
  have hn : lookupIn 0 n'.scores = fun c => -lookupIn 0 n.scores c := by
    rw [hnscores]
    exact funext fun c => lookupIn_negated _ c
  have hspearman : spearman root ((sharedOf o n).map fun c => -lookupIn 0 o.scores c)
      ((sharedOf o n).map fun c => -lookupIn 0 n.scores c) =
        spearman root ((sharedOf o n).map (lookupIn 0 o.scores)) ((sharedOf o n).map (lookupIn 0 n.scores)) := by
    have hneg := @spearman_neg root ((sharedOf o n).map (lookupIn 0 o.scores))
      ((sharedOf o n).map (lookupIn 0 n.scores)) (by rw [List.length_map, List.length_map])
    rwa [List.map_map, List.map_map] at hneg
  refine ⟨hshared, ?_⟩
  simp only [reportOf, hshared, ho, hn, hospace, hnspace, hocost, hncost, Direction.sign_opposite, championOf_neg,
    topOverlap_neg, flipped_neg, inversions_neg, hspearman]

theorem lookup_evidence {es : List PanelEvidence} (h : scoreMap label es = .ok m) {c : Text}
    (hc : c ∈ m.scores.map (·.1)) : ∃ e ∈ es, e.candidateId = c ∧ e.evidenceId = lookupIn [] m.evidence c := by
  obtain ⟨-, -, -, hnodup, -, hevidence, -⟩ := scoreMap_ok_iff.mp h
  rw [keys_scores h] at hc
  obtain ⟨e, he, rfl⟩ := List.mem_map.mp hc
  have hkeys : (m.evidence.map (·.1)).Nodup := by
    rw [hevidence, List.map_map]
    exact hnodup
  refine ⟨e, he, rfl, (lookupIn_of_mem hkeys ?_).symm⟩
  rw [hevidence]
  exact List.mem_map_of_mem he

theorem mem_refs {o n : ScoreMap} (ho : scoreMap "old".toList old = .ok o) (hn : scoreMap "new".toList new = .ok n)
    {id : Text} : id ∈ (reportOf root o n topK direction).evidenceRefs ↔ ∃ e ∈ old ++ new, e.evidenceId = id := by
  obtain ⟨-, -, -, -, -, -, -, horefs⟩ := scoreMap_ok_iff.mp ho
  obtain ⟨-, -, -, -, -, -, -, hnrefs⟩ := scoreMap_ok_iff.mp hn
  have hid : ∀ es : List PanelEvidence, id ∈ inOrder (es.map (·.evidenceId)).dedup ↔ ∃ e ∈ es, e.evidenceId = id := by
    intro es
    rw [inOrder, List.mem_mergeSort, List.mem_dedup, List.mem_map]
  change id ∈ o.refs ++ n.refs.filter (· ∉ o.refs) ↔ _
  have hsplit : (∃ e ∈ old ++ new, e.evidenceId = id) ↔ id ∈ o.refs ∨ id ∈ n.refs := by
    rw [horefs, hnrefs, hid, hid]
    constructor
    · rintro ⟨e, he, hid⟩
      exact (List.mem_append.mp he).imp (fun h => ⟨e, h, hid⟩) fun h => ⟨e, h, hid⟩
    · rintro (⟨e, he, hid⟩ | ⟨e, he, hid⟩)
      · exact ⟨e, List.mem_append_left _ he, hid⟩
      · exact ⟨e, List.mem_append_right _ he, hid⟩
  rw [hsplit, List.mem_append, List.mem_filter, decide_eq_true_eq]
  tauto

/-- The ids of a report are those of evidence in the panels: of its two champions, and of all there is. -/
structure Names (old new : List PanelEvidence) (r : MigrationReport) : Prop where
  championOld : ∃ e ∈ old, e.candidateId = r.championOld ∧ e.evidenceId = r.championOldEvidenceId
  championNew : ∃ e ∈ new, e.candidateId = r.championNew ∧ e.evidenceId = r.championNewEvidenceId
  evidenceRefs : ∀ id, id ∈ r.evidenceRefs ↔ ∃ e ∈ old ++ new, e.evidenceId = id

theorem champions_mem {o n : ScoreMap} (hlen : 2 ≤ (sharedOf o n).length) :
    (reportOf root o n topK direction).championOld ∈ sharedOf o n ∧
      (reportOf root o n topK direction).championNew ∈ sharedOf o n := by
  have hne : sharedOf o n ≠ [] := by
    intro h
    rw [h] at hlen
    exact absurd hlen (by decide)
  exact ⟨championOf_mem hne, championOf_mem hne⟩

theorem names_reportOf {o n : ScoreMap} (ho : scoreMap "old".toList old = .ok o) (hn : scoreMap "new".toList new = .ok n)
    (hlen : 2 ≤ (sharedOf o n).length) : Names old new (reportOf root o n topK direction) where
  championOld := lookup_evidence ho (mem_sharedOf.mp (champions_mem hlen).1).1
  championNew := lookup_evidence hn (mem_sharedOf.mp (champions_mem hlen).2).2
  evidenceRefs _ := mem_refs ho hn

theorem inverted_or_tied (d : Direction) {x y x' y' : ℚ} (hbehind : d.sign * x ≤ d.sign * x')
    (hahead : d.sign * y' < d.sign * y) : (x - x') * (y - y') < 0 ∨ x = x' ∧ y ≠ y' := by
  by_cases hx : x = x'
  · refine .inr ⟨hx, ?_⟩
    rintro rfl
    exact absurd hahead (lt_irrefl _)
  · left
    cases d with
    | maximize =>
      rw [Direction.sign, one_mul, one_mul] at hbehind hahead
      have hlt := lt_of_le_of_ne hbehind hx
      exact mul_neg_of_neg_of_pos (by linarith) (by linarith)
    | minimize =>
      rw [Direction.sign, neg_one_mul, neg_one_mul] at hbehind hahead
      have hlt := lt_of_le_of_ne (neg_le_neg_iff.mp hbehind) (Ne.symm hx)
      exact mul_neg_of_pos_of_neg (by linarith) (by linarith)

theorem Agree.flipped_eq_nil {sign : ℚ} {shared : List Text} {f g : Text → ℚ} (h : Agree sign shared f g) :
    (flipped sign shared f g).length = 0 := by
  rw [List.length_eq_zero_iff, List.eq_nil_iff_forall_not_mem]
  intro c hc
  obtain ⟨hmem, -, hahead⟩ := flipped_spec hc
  have hle : sign * g c ≤ sign * g (championOf sign shared g) := le_championOf hmem
  have hsame : championOf sign shared f = championOf sign shared g := congrArg (List.headD · []) h.ordering_eq
  rw [hsame] at hahead
  linarith

/-- Whatever the panels, a report on them is consistent with their scores: its champions are ahead of
everybody, who overtakes the old one was behind it or level, and where no pair is inverted or tied
nothing has changed. The report on the negated panels in the other direction differs in the fitness of
its champions and in the ids of the evidence. -/
theorem report_consistent (root : SquareRoot) (old new : List PanelEvidence) (topK : ℕ) (direction : Direction)
    (report : MigrationReport) (h : compareMeasurements root old new topK direction = .ok report) :
    ((∃ x y, SharedScores old new report.championOld x y ∧
        ∀ c x' y', SharedScores old new c x' y' → direction.sign * x' ≤ direction.sign * x) ∧
      ∃ x y, SharedScores old new report.championNew x y ∧
        ∀ c x' y', SharedScores old new c x' y' → direction.sign * y' ≤ direction.sign * y) ∧
    (∀ c ∈ report.flippedCandidates, ∃ x y x' y', SharedScores old new c x y ∧
      SharedScores old new report.championOld x' y' ∧ ((x - x') * (y - y') < 0 ∨ x = x' ∧ y ≠ y')) ∧
    (report.pairwiseInversions = 0 →
      (∀ a b x y x' y', SharedScores old new a x y → SharedScores old new b x' y' → a ≠ b → x ≠ x' ∧ y ≠ y') →
        report.championChanged = false ∧ report.championOld = report.championNew ∧ report.topKOverlap = 1 ∧
          report.decisionFlips = 0 ∧ (report.spearman = none ∨ report.spearman = some 1)) ∧
    ∀ old' new', List.Forall₂ Negated old old' → List.Forall₂ Negated new new' →
      ∃ report', compareMeasurements root old' new' topK direction.opposite = .ok report' ∧ Names old' new' report' ∧
        report' = { report with
          championOldFitness := -report.championOldFitness
          championNewFitness := -report.championNewFitness
          championOldEvidenceId := report'.championOldEvidenceId
          championNewEvidenceId := report'.championNewEvidenceId
          evidenceRefs := report'.evidenceRefs } := by
  obtain ⟨o, n, ho, hn, hspace, hlen, htop, rfl⟩ := compareMeasurements_ok_iff.mp h
  have hshared := @sharedScores_iff old new o n ho hn
  obtain ⟨hold, hnew⟩ := @champions_mem root topK direction o n hlen
  refine ⟨⟨⟨_, _, hshared.mpr ⟨hold, rfl, rfl⟩, ?_⟩, ⟨_, _, hshared.mpr ⟨hnew, rfl, rfl⟩, ?_⟩⟩, ?_, ?_, ?_⟩
  · intro c x' y' hc
    obtain ⟨hmem, rfl, -⟩ := hshared.mp hc
    exact le_championOf hmem
  · intro c x' y' hc
    obtain ⟨hmem, -, rfl⟩ := hshared.mp hc
    exact le_championOf hmem
  · intro c hc
    obtain ⟨hmem, hbehind, hahead⟩ := flipped_spec hc
    refine ⟨_, _, _, _, hshared.mpr ⟨hmem, rfl, rfl⟩, hshared.mpr ⟨hold, rfl, rfl⟩, ?_⟩
    exact inverted_or_tied direction hbehind hahead
  · intro hnone htie
    have hagree : Agree direction.sign (sharedOf o n) (lookupIn 0 o.scores) (lookupIn 0 n.scores) :=
      agree_of_no_inversion direction.sign_ne_zero (List.length_eq_zero_iff.mp hnone) fun a ha b hb hne =>
        htie a b _ _ _ _ (hshared.mpr ⟨ha, rfl, rfl⟩) (hshared.mpr ⟨hb, rfl, rfl⟩) hne
    have hchampion : (reportOf root o n topK direction).championOld = (reportOf root o n topK direction).championNew :=
      congrArg (List.headD · []) hagree.ordering_eq
    refine ⟨decide_eq_false (not_not.mpr hchampion), hchampion, ?_, ?_, ?_⟩
    · exact hagree.topOverlap_eq (nodup_sharedOf (nodup_keys_scores ho)) (lt_min (by omega) (by omega)) (min_le_right _ _)
    · rw [← hagree.flipped_eq_nil]
      rfl
    · exact spearman_of_ranks root (hagree.ranks_eq direction.sign_ne_zero)
  · intro old' new' hold' hnew'
    obtain ⟨o', ho', hospace, hoscores, hocost⟩ := scoreMap_negated ho hold'
    obtain ⟨n', hn', hnspace, hnscores, hncost⟩ := scoreMap_negated hn hnew'
    obtain ⟨hsame, hreport⟩ := @reportOf_negated root topK direction o n o' n' hospace hnspace hoscores hnscores hocost hncost
    have hlen' : 2 ≤ (sharedOf o' n').length := by rw [hsame]; exact hlen
    refine ⟨_, compareMeasurements_ok_iff.mpr ⟨o', n', ho', hn', ?_, hlen', htop, rfl⟩, names_reportOf ho' hn' hlen', ?_⟩
    · rw [hospace, hnspace]
      exact hspace
    · rw [hreport]

def exactRoot : SquareRoot where
  sqrt := Rat.sqrt
  sqrt_mul_self x hx := by rw [Rat.sqrt_eq, abs_of_nonneg hx]

def addressed (space : ScoreNamespace) (c : Char) (score : ℚ) (h : strip [c] ≠ []) : PanelEvidence :=
  { evidenceOf c score h with
    scoreNamespace := space
    evidenceId := c :: (if 0 ≤ score then '+' else '-') :: (space.measurementHash ++ Nat.toDigits 10 score.num.natAbs)
    budgetUsedUsd := 0 }

theorem strip_a : strip ['a'] ≠ [] := by decide

theorem strip_b : strip ['b'] ≠ [] := by decide

def oldPanel (sign : ℚ) : List PanelEvidence :=
  [addressed exactNamespace 'a' (sign * 1) strip_a, addressed exactNamespace 'b' (sign * 2) strip_b]

def newPanel (sign : ℚ) : List PanelEvidence :=
  [addressed wideNamespace 'a' (sign * 3) strip_a, addressed wideNamespace 'b' (sign * 5) strip_b]

theorem scoreMap_pair (label : Text) (space : ScoreNamespace) (x y : ℚ) : ∃ m,
    scoreMap label [addressed space 'a' x (by decide), addressed space 'b' y (by decide)] = .ok m ∧
      m.scoreNamespace = space ∧ m.scores.map (·.1) = [['a'], ['b']] := by
  refine ⟨{
      scoreNamespace := space
      scores := [(['a'], x), (['b'], y)]
      evidence := _
      cost := _
      refs := _ }, scoreMap_ok_iff.mpr ⟨by simp, ?_, ?_, by simp [addressed, evidenceOf], rfl, rfl, rfl, rfl⟩, rfl, rfl⟩
  · simp [addressed]
  · simp [addressed, Sound, evidenceOf]

theorem panels_compared (sign : ℚ) (direction : Direction) :
    ∃ report, compareMeasurements exactRoot (oldPanel sign) (newPanel sign) 5 direction = .ok report := by
  obtain ⟨o, ho, hospace, hokeys⟩ := scoreMap_pair "old".toList exactNamespace (sign * 1) (sign * 2)
  obtain ⟨n, hn, hnspace, hnkeys⟩ := scoreMap_pair "new".toList wideNamespace (sign * 3) (sign * 5)
  refine ⟨_, compareMeasurements_ok_iff.mpr ⟨o, n, ho, hn, ?_, ?_, by decide, rfl⟩⟩
  · rw [hospace, hnspace]
    decide
  · rw [sharedOf, inOrder, List.length_mergeSort, hokeys, hnkeys]
    decide

theorem report_consistent_pair : ∃ report,
    compareMeasurements exactRoot (oldPanel 1) (newPanel 1) 5 .maximize = .ok report ∧
      ∃ x y, SharedScores (oldPanel 1) (newPanel 1) report.championOld x y ∧
        ∀ c x' y', SharedScores (oldPanel 1) (newPanel 1) c x' y' → Direction.maximize.sign * x' ≤ Direction.maximize.sign * x := by
  obtain ⟨report, h⟩ := panels_compared 1 .maximize
  exact ⟨report, h, (report_consistent exactRoot (oldPanel 1) (newPanel 1) 5 .maximize report h).1.1⟩

theorem evidence_renamed : ∃ report report',
    compareMeasurements exactRoot (oldPanel 1) (newPanel 1) 5 .maximize = .ok report ∧
      compareMeasurements exactRoot (oldPanel (-1)) (newPanel (-1)) 5 .minimize = .ok report' ∧
        List.Forall₂ Negated (oldPanel 1) (oldPanel (-1)) ∧ List.Forall₂ Negated (newPanel 1) (newPanel (-1)) ∧
          report'.championOldEvidenceId ≠ report.championOldEvidenceId := by
  obtain ⟨report, h⟩ := panels_compared 1 .maximize
  obtain ⟨report', h'⟩ := panels_compared (-1) .minimize
  refine ⟨report, report', h, h', ?_, ?_, ?_⟩
  · exact .cons ⟨rfl, rfl, rfl, rfl, by simp [addressed, evidenceOf], rfl⟩
      (.cons ⟨rfl, rfl, rfl, rfl, by simp [addressed, evidenceOf], rfl⟩ .nil)
  · exact .cons ⟨rfl, rfl, rfl, rfl, by simp [addressed, evidenceOf], rfl⟩
      (.cons ⟨rfl, rfl, rfl, rfl, by simp [addressed, evidenceOf], rfl⟩ .nil)
  · obtain ⟨o, n, ho, hn, -, hlen, -, rfl⟩ := compareMeasurements_ok_iff.mp h
    obtain ⟨o', n', ho', hn', -, hlen', -, rfl⟩ := compareMeasurements_ok_iff.mp h'
    have hnames : Names (oldPanel 1) (newPanel 1) (reportOf exactRoot o n 5 .maximize) := names_reportOf ho hn hlen
    have hnames' : Names (oldPanel (-1)) (newPanel (-1)) (reportOf exactRoot o' n' 5 .minimize) :=
      names_reportOf ho' hn' hlen'
    obtain ⟨e, he, -, hid⟩ := hnames.championOld
    obtain ⟨e', he', -, hid'⟩ := hnames'.championOld
    have hplus : ∀ e ∈ oldPanel 1, e.evidenceId[1]? = some '+' := by decide +kernel
    have hminus : ∀ e ∈ oldPanel (-1), e.evidenceId[1]? = some '-' := by decide +kernel
    intro hsame
    have hsecond := hminus e' he'
    rw [hid', hsame, ← hid, hplus e he] at hsecond
    exact absurd hsecond (by decide)

end EvoHarness.Research
