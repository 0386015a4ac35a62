import EvoHarness.Research.Gate

/-! Workers that ask the gate, spend what they were allowed, and append their outcome. Every
read of a file, every charge and every append is a step of its own. -/
namespace EvoHarness.Research.Spending
open PyText Runs

variable {enc : Encoders} {ω : Type}

structure Ask where
  eventKind : Text
  runId : Text
  projected : ℚ

/-- Where a worker stands: the approved amount read, the outcomes being summed, allowed to
spend, or spending with a meter. -/
inductive Phase where
  | idle
  | asked (a : Ask) (approved : ℚ × List Text)
  | summing (a : Ask) (approved : ℚ × List Text) (acc : Spent) (rest : List ExperimentOutcome)
  | allowed (runId : Text) (allowance : ℚ)
  | running (runId : Text) (allowance meter : ℚ)

/-- `budgets` is the `spent_usd` of each run's `budget.json`. `inFlight` are the workers that are
allowed to spend and have not appended their outcome, `runs` the runs that were allowed, and
`alone w` says that no worker was in flight when `w` read the outcomes and none was allowed since. -/
structure Net (enc : Encoders) (ω : Type) where
  answered : List (Answered enc) := []
  outcomes : List ExperimentOutcome := []
  budgets : Text → Option ℚ := fun _ => none
  phase : ω → Phase := fun _ => .idle
  inFlight : List ω := []
  runs : List Text := []
  alone : ω → Bool := fun _ => false

inductive Action (enc : Encoders) where
  | answer (card : Answered enc)
  | ask (a : Ask)
  | readOutcomes
  | readMeter
  | judge
  | start
  | charge (usd : ℚ)
  | record (outcome : ExperimentOutcome)

section
variable [DecidableEq ω]

def Net.goto (net : Net enc ω) (w : ω) (ph : Phase) : Net enc ω :=
  { net with phase := Function.update net.phase w ph }

def step (fm : GateFormats) (hasRunsRoot : Bool) (spec : ExperimentSpec) (net : Net enc ω) :
    ω × Action enc → Option (Net enc ω)
  | (_, .answer card) => some { net with answered := net.answered ++ [card] }
  | (w, .ask a) =>
    match net.phase w with
    | .idle =>
      match precheck fm a.eventKind spec.experimentId a.projected (.ok spec) with
      | some _ => some net
      | none => some (net.goto w (.asked a (approvedUsd fm spec net.answered)))
    | _ => none
  | (w, .readOutcomes) =>
    match net.phase w with
    | .asked a approved =>
      some { net.goto w (.summing a approved (spentStart hasRunsRoot net.outcomes) net.outcomes) with
        alone := Function.update net.alone w net.inFlight.isEmpty }
    | _ => none
  | (w, .readMeter) =>
    match net.phase w with
    | .summing a approved acc (o :: rest) =>
      some (net.goto w (.summing a approved (addOutcome hasRunsRoot acc o (net.budgets o.runId)) rest))
    | _ => none
  | (w, .judge) =>
    match net.phase w with
    | .summing a approved acc [] =>
      if (judge fm a.eventKind spec.experimentId a.projected (ledgerOf approved acc)).allowed = true then
        some { net.goto w (.allowed a.runId a.projected) with
          inFlight := w :: net.inFlight, runs := a.runId :: net.runs, alone := fun _ => false }
      else some (net.goto w .idle)
    | _ => none
  | (w, .start) =>
    match net.phase w with
    | .allowed runId allowance => some (net.goto w (.running runId allowance ((net.budgets runId).getD 0)))
    | _ => none
  | (w, .charge usd) =>
    match net.phase w with
    | .running runId allowance meter =>
      if 0 ≤ usd ∧ usd ≤ allowance then
        some { net.goto w (.running runId (allowance - usd) (meter + usd)) with
          budgets := Function.update net.budgets runId (some (meter + usd)) }
      else none
    | _ => none
  | (w, .record outcome) =>
    match net.phase w with
    | .running runId _ _ =>
      if outcome.runId = runId then
        some { net.goto w .idle with
          outcomes := net.outcomes ++ [outcome], inFlight := net.inFlight.erase w }
      else none
    | _ => none

end

inductive Approves (fm : GateFormats) (spec : ExperimentSpec) (answered : List (Answered enc)) : ℚ → Prop
  | spec {x : ℚ} (hby : strip (spec.approvedBy.getD []) ≠ []) (hx : spec.estimatedCostUsd = some x) :
      Approves fm spec answered x
  | card {x : ℚ} {p : Answered enc} (hp : p ∈ answered) (hid : p.1.experimentId = spec.experimentId)
      (hkind : p.1.kind = "budget-expansion".toList) (haction : p.2.action = "approve".toList)
      (hx : fm.requestedBudget p.1.payload = some x) : Approves fm spec answered x

def metered (budgets : Text → Option ℚ) (runId : Text) : ℚ := max 0 ((budgets runId).getD 0)

def Net.total (net : Net enc ω) : ℚ := (net.runs.dedup.map (metered net.budgets)).sum

def Net.Within (fm : GateFormats) (spec : ExperimentSpec) (net : Net enc ω) : Prop :=
  net.runs = [] ∨ ∃ x, Approves fm spec net.answered x ∧ net.total ≤ x

/-- A check that allows has had the ledger to itself, and the run's meter is in the ledger or new. -/
def careful (fm : GateFormats) (spec : ExperimentSpec) (net : Net enc ω) : ω × Action enc → Bool
  | (w, .judge) =>
    match net.phase w with
    | .summing a approved acc [] =>
      !(judge fm a.eventKind spec.experimentId a.projected (ledgerOf approved acc)).allowed ||
        (net.alone w && ((net.budgets a.runId).isNone || net.outcomes.any fun o => o.runId = a.runId))
    | _ => true
  | _ => true

theorem metered_nonneg (budgets : Text → Option ℚ) (runId : Text) : 0 ≤ metered budgets runId := le_max_left _ _

theorem sum_le_of_subset {l ids : List Text} {f : Text → ℚ} (hl : l.Nodup) (h : l ⊆ ids) (hf : ∀ t, 0 ≤ f t) :
    (l.map f).sum ≤ (ids.map f).sum := by
  obtain ⟨l', hperm, hsub⟩ := List.subperm_of_subset hl h
  rw [← (hperm.map f).sum_eq]
  apply (hsub.map f).sum_le_sum
  intro x hx
  obtain ⟨t, _, rfl⟩ := List.mem_map.mp hx
  exact hf t

theorem sum_metered_charge {l : List Text} (hl : l.Nodup) (budgets : Text → Option ℚ) (runId : Text) {meter usd : ℚ}
    (hmeter : meter = (budgets runId).getD 0) (husd : 0 ≤ usd) :
    (l.map (metered (Function.update budgets runId (some (meter + usd))))).sum ≤
      (l.map (metered budgets)).sum + usd := by
  have hkeep : ∀ t, t ≠ runId → metered (Function.update budgets runId (some (meter + usd))) t = metered budgets t := by
    intro t ht
    simp only [metered, Function.update_of_ne ht]
  have hself : metered (Function.update budgets runId (some (meter + usd))) runId ≤ metered budgets runId + usd := by
    simp only [metered, Function.update_self, Option.getD_some, ← hmeter]
    apply max_le
    · linarith [le_max_left 0 meter]
    · linarith [le_max_right 0 meter]
  induction l with
  | nil => simpa using husd
  | cons t l ih =>
    obtain ⟨ht, hl⟩ := List.nodup_cons.mp hl
    simp only [List.map_cons, List.sum_cons]
    by_cases heq : t = runId
    · subst heq
      have hrest : l.map (metered (Function.update budgets t (some (meter + usd)))) = l.map (metered budgets) := by
        apply List.map_congr_left
        intro s hs
        exact hkeep s fun h => ht (h ▸ hs)
      rw [hrest]
      linarith
    · rw [hkeep t heq]
      linarith [ih hl]

variable {fm : GateFormats} {hasRunsRoot : Bool} {spec : ExperimentSpec} {answered : List (Answered enc)}

theorem Approves.mono {cards : List (Answered enc)} {x : ℚ} (h : Approves fm spec answered x) :
    Approves fm spec (answered ++ cards) x := by
  cases h with
  | spec hby hx => exact .spec hby hx
  | card hp hid hkind haction hx => exact .card (List.mem_append_left _ hp) hid hkind haction hx

theorem approves_of_foldl {cards : List (Answered enc)} {acc : ℚ × List Text}
    (hcards : ∀ p ∈ cards, p ∈ approvedExpansions spec.experimentId answered)
    (hacc : 0 < acc.1 → Approves fm spec answered acc.1)
    (h : 0 < (cards.foldl (addExpansion fm) acc).1) :
    Approves fm spec answered (cards.foldl (addExpansion fm) acc).1 := by
  induction cards generalizing acc with
  | nil => exact hacc h
  | cons p cards ih =>
    apply ih (fun q hq => hcards q (List.mem_cons_of_mem _ hq)) _ h
    intro hpos
    have hp := hcards p (List.mem_cons_self ..)
    simp only [approvedExpansions, List.mem_filter, Bool.and_eq_true, decide_eq_true_eq] at hp
    obtain ⟨hp, ⟨hid, hkind⟩, haction⟩ := hp
    unfold addExpansion at hpos ⊢
    split
    · next requested hx =>
      rw [hx] at hpos
      cases le_total acc.1 requested with
      | inl hle => simpa [max_eq_right hle] using Approves.card hp hid hkind haction hx
      | inr hle =>
        simp only [max_eq_left hle] at hpos ⊢
        exact hacc hpos
    · next hx =>
      rw [hx] at hpos
      exact hacc hpos

theorem approves_approvedUsd (h : 0 < (approvedUsd fm spec answered).1) :
    Approves fm spec answered (approvedUsd fm spec answered).1 := by
  apply approves_of_foldl (fun p hp => hp) _ h
  intro hpos
  unfold specApproval at hpos ⊢
  by_cases hby : strip (spec.approvedBy.getD []) ≠ []
  · rw [if_pos hby] at hpos ⊢
    cases hx : spec.estimatedCostUsd.filter (· ≠ 0) with
    | none =>
      rw [hx] at hpos
      exact absurd hpos (lt_irrefl 0)
    | some x => exact .spec hby (Option.filter_eq_some_iff.mp hx).1
  · simp [if_neg hby] at hpos

theorem judge_allowed {eventKind experimentId : Text} {projected : ℚ} {ledger : BudgetLedger}
    (h : (judge fm eventKind experimentId projected ledger).allowed = true) :
    0 < ledger.approvedUsd ∧ ledger.spentUsd + projected ≤ ledger.approvedUsd ∧
      (ledger.trusted = true ∨ ledger.reasons = []) := by
  simp only [judge, decide_eq_true_eq, List.append_eq_nil_iff] at h
  obtain ⟨htrust, hbudget⟩ := h
  split at hbudget
  · simp at hbudget
  · next happroved =>
    split at hbudget
    · simp at hbudget
    · next hfits =>
      refine ⟨not_le.mp happroved, not_lt.mp hfits, ?_⟩
      split at htrust
      · exact Or.inl (by assumption)
      · exact Or.inr htrust

theorem precheck_none {a : Ask} (h : precheck fm a.eventKind spec.experimentId a.projected (.ok spec) = none) :
    0 ≤ a.projected := by
  unfold precheck at h
  split at h
  · simp at h
  · simp only at h
    split at h
    · split at h <;> simp at h
    · split at h
      · simp at h
      · next hneg => exact not_lt.mp hneg

def Phase.run : Phase → Option Text
  | .allowed runId _ | .running runId _ _ => some runId
  | _ => none

def Phase.pledge : Phase → ℚ
  | .allowed _ allowance | .running _ allowance _ => allowance
  | _ => 0

def Reasoned (hasRunsRoot : Bool) (acc : Spent) (rest : List ExperimentOutcome) : Prop :=
  (acc.trusted = false → acc.reasons ≠ []) ∧ (hasRunsRoot = false → rest ≠ [] → acc.trusted = false)

/-- A check in hand asks for no negative amount and has read an approved one; if it has had the
ledger to itself, what it has summed is what the runs have spent. -/
def PhaseOk (fm : GateFormats) (hasRunsRoot : Bool) (spec : ExperimentSpec) (net : Net enc ω) (w : ω) : Phase → Prop
  | .asked a approved => 0 ≤ a.projected ∧ (0 < approved.1 → Approves fm spec net.answered approved.1)
  | .summing a approved acc rest => 0 ≤ a.projected ∧ (0 < approved.1 → Approves fm spec net.answered approved.1) ∧
      Reasoned hasRunsRoot acc rest ∧
      (net.alone w = true → ∃ counted, net.outcomes = counted ++ rest ∧
        (acc.trusted = true → acc.spent = (counted.map fun o => metered net.budgets o.runId).sum))
  | .allowed _ allowance => 0 ≤ allowance
  | .running runId allowance meter => 0 ≤ allowance ∧ meter = (net.budgets runId).getD 0
  | .idle => True

structure Inv (fm : GateFormats) (hasRunsRoot : Bool) (spec : ExperimentSpec) (net : Net enc ω) : Prop where
  single : net.inFlight.length ≤ 1
  flight : ∀ w, w ∈ net.inFlight ↔ (net.phase w).run.isSome = true
  known : ∀ r ∈ net.runs, (∃ o ∈ net.outcomes, o.runId = r) ∨ ∃ w ∈ net.inFlight, (net.phase w).run = some r
  funded : net.runs ≠ [] → ∃ x, Approves fm spec net.answered x ∧
    net.total + (net.inFlight.map fun w => (net.phase w).pledge).sum ≤ x
  alone : ∀ w, net.alone w = true → net.inFlight = []
  phases : ∀ w, PhaseOk fm hasRunsRoot spec net w (net.phase w)

theorem Phase.pledge_nonneg {net : Net enc ω} {w : ω} {ph : Phase} (h : PhaseOk fm hasRunsRoot spec net w ph) : 0 ≤ ph.pledge := by
  cases ph with
  | allowed runId allowance => exact h
  | running runId allowance meter => exact h.1
  | _ => exact le_refl 0

variable {net : Net enc ω} {w : ω}

theorem Inv.not_flying (h : Inv fm hasRunsRoot spec net) (hph : (net.phase w).run = none) : w ∉ net.inFlight := by
  intro hw
  have := (h.flight w).mp hw
  simp [hph] at this

theorem Inv.flying (h : Inv fm hasRunsRoot spec net) {r : Text} (hph : (net.phase w).run = some r) : net.inFlight = [w] := by
  have hw : w ∈ net.inFlight := (h.flight w).mpr (by rw [hph]; rfl)
  have hsingle := h.single
  match hl : net.inFlight with
  | [] => simp [hl] at hw
  | [v] =>
    rw [hl] at hw
    rw [List.mem_singleton.mp hw]
  | _ :: _ :: _ => simp [hl] at hsingle

section
variable [DecidableEq ω]

theorem map_phase_update {α : Type} {ws : List ω} {phase : ω → Phase} {ph : Phase} (f : Phase → α) (hw : w ∉ ws) :
    (ws.map fun v => f (Function.update phase w ph v)) = ws.map fun v => f (phase v) := by
  apply List.map_congr_left
  intro v hv
  have hne : v ≠ w := fun h => hw (h ▸ hv)
  rw [Function.update_of_ne hne]

theorem Inv.move {ph : Phase} {alone : ω → Bool} (h : Inv fm hasRunsRoot spec net) (hphase : (net.phase w).run = none)
    (hrun : ph.run = none) (halone : ∀ v, alone v = true → net.inFlight = [])
    (hothers : ∀ v, v ≠ w → alone v = true → net.alone v = true)
    (hph : PhaseOk fm hasRunsRoot spec { net with alone } w ph) :
    Inv fm hasRunsRoot spec { net.goto w ph with alone } := by
  have hw := h.not_flying hphase
  refine ⟨h.single, fun v => ?_, fun r hr => ?_, fun hruns => ?_, halone, fun v => ?_⟩
  · by_cases hv : v = w
    · subst hv
      simp [Net.goto, hrun, hw]
    · simpa only [Net.goto, Function.update_of_ne hv] using h.flight v
  · cases h.known r hr with
    | inl ho => exact Or.inl ho
    | inr hv =>
      obtain ⟨v, hv, hvr⟩ := hv
      have hne : v ≠ w := fun heq => hw (heq ▸ hv)
      refine Or.inr ⟨v, hv, ?_⟩
      simpa only [Net.goto, Function.update_of_ne hne] using hvr
  · have hfunded := h.funded hruns
    simp only [Net.goto, map_phase_update Phase.pledge hw]
    exact hfunded
  · by_cases hv : v = w
    · subst hv
      simp only [Net.goto, Function.update_self]
      exact hph
    · have hold := h.phases v
      simp only [Net.goto, Function.update_of_ne hv]
      cases hphv : net.phase v with
      | summing a approved acc rest =>
        rw [hphv] at hold
        exact ⟨hold.1, hold.2.1, hold.2.2.1, fun hal => hold.2.2.2 (hothers v hv hal)⟩
      | _ =>
        rw [hphv] at hold
        exact hold

omit [DecidableEq ω] in
theorem Inv.answer (h : Inv fm hasRunsRoot spec net) (card : Answered enc) :
    Inv fm hasRunsRoot spec { net with answered := net.answered ++ [card] } := by
  refine ⟨h.single, h.flight, h.known, fun hruns => ?_, h.alone, fun v => ?_⟩
  · obtain ⟨x, hx, hle⟩ := h.funded hruns
    exact ⟨x, hx.mono, hle⟩
  · have hold := h.phases v
    cases hph : net.phase v with
    | asked a approved =>
      rw [hph] at hold
      exact ⟨hold.1, fun hpos => (hold.2 hpos).mono⟩
    | summing a approved acc rest =>
      rw [hph] at hold
      exact ⟨hold.1, fun hpos => (hold.2.1 hpos).mono, hold.2.2⟩
    | _ =>
      rw [hph] at hold
      exact hold

omit [DecidableEq ω] in
/-- The ledger a check has had to itself covers every run, and one more whose meter is in it or new. -/
theorem Inv.total_le (h : Inv fm hasRunsRoot spec net) {a : Ask} {approved : ℚ × List Text} {acc : Spent} {r : Text}
    (hph : net.phase w = .summing a approved acc []) (halone : net.alone w = true) (htrust : acc.trusted = true)
    (hr : net.budgets r = none ∨ ∃ o ∈ net.outcomes, o.runId = r) :
    ((r :: net.runs).dedup.map (metered net.budgets)).sum ≤ acc.spent := by
  have hok := h.phases w
  rw [hph] at hok
  obtain ⟨counted, hout, hspent⟩ := hok.2.2.2 halone
  rw [List.append_nil] at hout
  have hids : (net.outcomes.map fun o => metered net.budgets o.runId) =
      (net.outcomes.map (·.runId)).map (metered net.budgets) := by
    rw [List.map_map]
    rfl
  rw [hspent htrust, ← hout, hids]
  have hknown : ∀ t ∈ net.runs, t ∈ net.outcomes.map (·.runId) := by
    intro t ht
    cases h.known t ht with
    | inl ho =>
      obtain ⟨o, ho, rfl⟩ := ho
      exact List.mem_map_of_mem ho
    | inr hv =>
      obtain ⟨v, hv, _⟩ := hv
      simp [h.alone w halone] at hv
  cases hr with
  | inl hnew =>
    have hsub : (r :: net.runs).dedup ⊆ r :: net.outcomes.map (·.runId) := by
      intro t ht
      cases List.mem_cons.mp (List.mem_dedup.mp ht) with
      | inl ht => exact ht ▸ List.mem_cons_self ..
      | inr ht => exact List.mem_cons_of_mem _ (hknown t ht)
    have hle := sum_le_of_subset (List.nodup_dedup _) hsub (metered_nonneg net.budgets)
    have hzero : metered net.budgets r = 0 := by simp [metered, hnew]
    simpa only [List.map_cons, List.sum_cons, hzero, zero_add] using hle
  | inr ho =>
    obtain ⟨o, ho, rfl⟩ := ho
    apply sum_le_of_subset (List.nodup_dedup _) _ (metered_nonneg net.budgets)
    intro t ht
    cases List.mem_cons.mp (List.mem_dedup.mp ht) with
    | inl ht => exact ht ▸ List.mem_map_of_mem ho
    | inr ht => exact hknown t ht

theorem Inv.allow (h : Inv fm hasRunsRoot spec net) {a : Ask} {approved : ℚ × List Text} {acc : Spent}
    (hph : net.phase w = .summing a approved acc [])
    (hallowed : (judge fm a.eventKind spec.experimentId a.projected (ledgerOf approved acc)).allowed = true)
    (halone : net.alone w = true)
    (hr : net.budgets a.runId = none ∨ ∃ o ∈ net.outcomes, o.runId = a.runId) :
    Inv fm hasRunsRoot spec { net.goto w (.allowed a.runId a.projected) with
      inFlight := w :: net.inFlight, runs := a.runId :: net.runs, alone := fun _ => false } := by
  have hnone := h.alone w halone
  have hok := h.phases w
  rw [hph] at hok
  obtain ⟨hpos, hfits, htrust⟩ := judge_allowed hallowed
  have htrust : acc.trusted = true := by
    cases htrust with
    | inl htrust => exact htrust
    | inr hreasons =>
      cases ht : acc.trusted with
      | true => rfl
      | false =>
        have hsome := hok.2.2.1.1 ht
        exact absurd (List.append_eq_nil_iff.mp hreasons).2 hsome
  refine ⟨by simp [hnone], fun v => ?_, fun r hmem => ?_, fun _ => ?_, fun _ h => by simp at h, fun v => ?_⟩
  · by_cases hv : v = w
    · subst hv
      simp [Net.goto, Phase.run]
    · have hv' := h.flight v
      simp only [Net.goto, Function.update_of_ne hv, List.mem_cons, hv, false_or]
      exact hv'
  · cases List.mem_cons.mp hmem with
    | inl heq => exact Or.inr ⟨w, List.mem_cons_self .., by simp [Net.goto, Phase.run, heq]⟩
    | inr hmem =>
      cases h.known r hmem with
      | inl ho => exact Or.inl ho
      | inr hv =>
        obtain ⟨v, hv, _⟩ := hv
        simp [hnone] at hv
  · refine ⟨approved.1, hok.2.1 hpos, ?_⟩
    have htotal := h.total_le hph halone htrust hr
    simp only [Net.goto, hnone, List.map_cons, List.map_nil, List.sum_cons, List.sum_nil, Function.update_self,
      Phase.pledge]
    have hle : acc.spent + a.projected ≤ approved.1 := hfits
    have hsum : { net.goto w (.allowed a.runId a.projected) with
        inFlight := w :: net.inFlight, runs := a.runId :: net.runs, alone := fun _ => false : Net enc ω }.total ≤
          acc.spent := htotal
    simp only [Net.goto, hnone] at hsum
    linarith
  · by_cases hv : v = w
    · subst hv
      simp only [Net.goto, Function.update_self]
      exact hok.1
    · have hold := h.phases v
      simp only [Net.goto, Function.update_of_ne hv]
      cases hphv : net.phase v with
      | summing a approved acc rest =>
        rw [hphv] at hold
        exact ⟨hold.1, hold.2.1, hold.2.2.1, fun hal => by simp at hal⟩
      | _ =>
        rw [hphv] at hold
        exact hold

theorem Inv.fly {r : Text} {ph : Phase} {budgets : Text → Option ℚ} {u : ℚ} (h : Inv fm hasRunsRoot spec net)
    (hr : (net.phase w).run = some r) (hrun : ph.run = some r)
    (htotal : (net.runs.dedup.map (metered budgets)).sum ≤ net.total + u)
    (hpledge : ph.pledge + u ≤ (net.phase w).pledge)
    (hph : PhaseOk fm hasRunsRoot spec { net with budgets } w ph) :
    Inv fm hasRunsRoot spec { net.goto w ph with budgets } := by
  have hfly := h.flying hr
  refine ⟨h.single, fun v => ?_, fun t ht => ?_, fun hruns => ?_, h.alone, fun v => ?_⟩
  · by_cases hv : v = w
    · subst hv
      simp [Net.goto, hrun, hfly]
    · simpa only [Net.goto, Function.update_of_ne hv] using h.flight v
  · cases h.known t ht with
    | inl ho => exact Or.inl ho
    | inr hv =>
      obtain ⟨v, hv, hvt⟩ := hv
      rw [hfly, List.mem_singleton] at hv
      subst hv
      refine Or.inr ⟨v, by simp [Net.goto, hfly], ?_⟩
      rw [hr] at hvt
      simpa [Net.goto, hrun] using hvt
  · obtain ⟨x, hx, hle⟩ := h.funded hruns
    refine ⟨x, hx, ?_⟩
    simp only [hfly, List.map_cons, List.map_nil, List.sum_cons, List.sum_nil, add_zero] at hle
    simp only [Net.goto, Net.total, hfly, List.map_cons, List.map_nil, List.sum_cons, List.sum_nil, add_zero,
      Function.update_self]
    linarith
  · by_cases hv : v = w
    · subst hv
      simp only [Net.goto, Function.update_self]
      exact hph
    · have hold := h.phases v
      simp only [Net.goto, Function.update_of_ne hv]
      cases hphv : net.phase v with
      | summing a approved acc rest =>
        rw [hphv] at hold
        refine ⟨hold.1, hold.2.1, hold.2.2.1, fun hal => ?_⟩
        -- nobody has the ledger to itself while one is in flight
        have := h.alone v hal
        simp [hfly] at this
      | running t allowance meter =>
        have hvfly := h.flying (w := v) (r := t) (by rw [hphv]; rfl)
        rw [hfly] at hvfly
        exact absurd (List.singleton_inj.mp hvfly).symm hv
      | _ =>
        rw [hphv] at hold
        exact hold

theorem Inv.land {r : Text} {outcome : ExperimentOutcome} (h : Inv fm hasRunsRoot spec net)
    (hr : (net.phase w).run = some r) (hout : outcome.runId = r) :
    Inv fm hasRunsRoot spec { net.goto w .idle with
      outcomes := net.outcomes ++ [outcome], inFlight := net.inFlight.erase w } := by
  have hfly := h.flying hr
  have hempty : net.inFlight.erase w = [] := by simp [hfly]
  refine ⟨by simp [hempty], fun v => ?_, fun t ht => Or.inl ?_, fun hruns => ?_, fun _ _ => hempty, fun v => ?_⟩
  · by_cases hv : v = w
    · subst hv
      simp [Net.goto, hempty, Phase.run]
    · have hv' := h.flight v
      rw [hfly, List.mem_singleton] at hv'
      simp only [Net.goto, hempty, Function.update_of_ne hv, List.not_mem_nil, false_iff]
      exact fun hsome => hv (hv'.mpr hsome)
  · cases h.known t ht with
    | inl ho =>
      obtain ⟨o, ho, heq⟩ := ho
      exact ⟨o, List.mem_append_left _ ho, heq⟩
    | inr hv =>
      obtain ⟨v, hv, hvt⟩ := hv
      rw [hfly, List.mem_singleton] at hv
      subst hv
      rw [hr] at hvt
      exact ⟨outcome, List.mem_append_right _ (List.mem_singleton_self _), hout.trans (Option.some.inj hvt)⟩
  · obtain ⟨x, hx, hle⟩ := h.funded hruns
    refine ⟨x, hx, ?_⟩
    have hpledge := Phase.pledge_nonneg (h.phases w)
    simp only [hfly, List.map_cons, List.map_nil, List.sum_cons, List.sum_nil, add_zero] at hle
    simp only [Net.goto, hempty, List.map_nil, List.sum_nil, add_zero]
    exact le_trans (le_add_of_nonneg_right hpledge) hle
  · by_cases hv : v = w
    · subst hv
      simp only [Net.goto, Function.update_self]
      trivial
    · have hold := h.phases v
      simp only [Net.goto, Function.update_of_ne hv]
      cases hphv : net.phase v with
      | summing a approved acc rest =>
        rw [hphv] at hold
        refine ⟨hold.1, hold.2.1, hold.2.2.1, fun hal => ?_⟩
        have := h.alone v hal
        simp [hfly] at this
      | _ =>
        rw [hphv] at hold
        exact hold

theorem reasoned_start (outcomes : List ExperimentOutcome) :
    Reasoned hasRunsRoot (spentStart hasRunsRoot outcomes) outcomes := by
  unfold spentStart
  split
  · exact ⟨fun _ => by simp, fun _ _ => rfl⟩
  · next hnot => exact ⟨fun h => by simp at h, fun hroot hne => absurd ⟨hroot, hne⟩ hnot⟩

theorem Reasoned.addOutcome {acc : Spent} {o : ExperimentOutcome} {rest : List ExperimentOutcome} {budget : Option ℚ}
    (h : Reasoned hasRunsRoot acc (o :: rest)) : Reasoned hasRunsRoot (addOutcome hasRunsRoot acc o budget) rest := by
  unfold Research.addOutcome
  split
  · next m hmetered =>
    refine ⟨h.1, fun hroot => ?_⟩
    simp [meteredTotal, hroot] at hmetered
  · refine ⟨fun _ => ?_, fun _ _ => rfl⟩
    cases hroot : hasRunsRoot with
    | true => simp
    | false => simpa using h.1 (h.2 hroot (List.cons_ne_nil _ _))

theorem addOutcome_spent {acc : Spent} {o : ExperimentOutcome} {budgets : Text → Option ℚ}
    (h : (addOutcome hasRunsRoot acc o (budgets o.runId)).trusted = true) :
    acc.trusted = true ∧ (addOutcome hasRunsRoot acc o (budgets o.runId)).spent = acc.spent + metered budgets o.runId := by
  unfold addOutcome at h ⊢
  split
  · next m hmetered =>
    rw [hmetered] at h
    refine ⟨h, ?_⟩
    unfold meteredTotal at hmetered
    split at hmetered
    · simp at hmetered
    · obtain ⟨hbudget, hnonneg⟩ := Option.filter_eq_some_iff.mp hmetered
      have hm : 0 ≤ m := of_decide_eq_true hnonneg
      simp [metered, hbudget, hm]
  · next hmetered =>
    rw [hmetered] at h
    simp at h

theorem inv_step (net : Net enc ω) (l : ω × Action enc) (t : Net enc ω) (h : Inv fm hasRunsRoot spec net)
    (hok : careful fm spec net l = true) (ht : step fm hasRunsRoot spec net l = some t) : Inv fm hasRunsRoot spec t := by
  obtain ⟨w, a⟩ := l
  have hphase := h.phases w
  cases a with
  | answer card =>
    obtain rfl := Option.some.inj ht
    exact h.answer card
  | ask a =>
    simp only [step] at ht
    split at ht
    · next hph =>
      split at ht
      · obtain rfl := Option.some.inj ht
        exact h
      · next hpre =>
        obtain rfl := Option.some.inj ht
        exact h.move (by rw [hph]; rfl) rfl h.alone (fun _ _ hv => hv) ⟨precheck_none hpre, approves_approvedUsd⟩
    · simp at ht
  | readOutcomes =>
    simp only [step] at ht
    split at ht
    · next a approved hph =>
      obtain rfl := Option.some.inj ht
      rw [hph] at hphase
      refine h.move (by rw [hph]; rfl) rfl (fun v hv => ?_) (fun v hv hal => ?_) ⟨hphase.1, hphase.2, reasoned_start _, ?_⟩
      · by_cases hvw : v = w
        · subst hvw
          simpa using hv
        · rw [Function.update_of_ne hvw] at hv
          exact h.alone v hv
      · rwa [Function.update_of_ne hv] at hal
      · intro _
        refine ⟨[], rfl, fun htrust => ?_⟩
        unfold spentStart at htrust ⊢
        split <;> rfl
    · simp at ht
  | readMeter =>
    simp only [step] at ht
    split at ht
    · next a approved acc o rest hph =>
      obtain rfl := Option.some.inj ht
      rw [hph] at hphase
      obtain ⟨hask, happroved, hreasoned, hsum⟩ := hphase
      refine h.move (by rw [hph]; rfl) rfl h.alone (fun _ _ hv => hv) ⟨hask, happroved, hreasoned.addOutcome, fun hal => ?_⟩
      obtain ⟨counted, hout, hspent⟩ := hsum hal
      refine ⟨counted ++ [o], by simp [hout], fun htrust => ?_⟩
      obtain ⟨hacc, hadd⟩ := addOutcome_spent htrust
      rw [hadd, hspent hacc]
      simp
    · simp at ht
  | judge =>
    simp only [step] at ht
    split at ht
    · next a approved acc hph =>
      split at ht
      · next hallowed =>
        obtain rfl := Option.some.inj ht
        simp only [careful, hph, hallowed, Bool.not_true, Bool.false_or, Bool.and_eq_true, Bool.or_eq_true,
          Option.isNone_iff_eq_none, List.any_eq_true, decide_eq_true_eq] at hok
        exact h.allow hph hallowed hok.1 hok.2
      · obtain rfl := Option.some.inj ht
        exact h.move (by rw [hph]; rfl) rfl h.alone (fun _ _ hv => hv) trivial
    · simp at ht
  | start =>
    simp only [step] at ht
    split at ht
    · next runId allowance hph =>
      obtain rfl := Option.some.inj ht
      rw [hph] at hphase
      refine h.fly (r := runId) (u := 0) (by rw [hph]; rfl) rfl ?_ ?_ ⟨hphase, rfl⟩
      · exact (add_zero net.total).symm.le
      · simp [hph, Phase.pledge]
    · simp at ht
  | charge usd =>
    simp only [step] at ht
    split at ht
    · next runId allowance meter hph =>
      split at ht
      · next husd =>
        obtain rfl := Option.some.inj ht
        rw [hph] at hphase
        refine h.fly (r := runId) (u := usd) (by rw [hph]; rfl) rfl ?_ ?_
          ⟨sub_nonneg.mpr husd.2, by simp⟩
        · exact sum_metered_charge (List.nodup_dedup _) net.budgets runId hphase.2 husd.1
        · simp [hph, Phase.pledge]
      · simp at ht
    · simp at ht
  | record outcome =>
    simp only [step] at ht
    split at ht
    · next runId allowance meter hph =>
      split at ht
      · next hout =>
        obtain rfl := Option.some.inj ht
        exact h.land (by rw [hph]; rfl) hout
      · simp at ht
    · simp at ht

end

theorem Inv.within (h : Inv fm hasRunsRoot spec net) : net.Within fm spec := by
  by_cases hruns : net.runs = []
  · exact Or.inl hruns
  · obtain ⟨x, hx, hle⟩ := h.funded hruns
    have hpledges : 0 ≤ (net.inFlight.map fun w => (net.phase w).pledge).sum := by
      apply List.sum_nonneg
      intro y hy
      obtain ⟨w, _, rfl⟩ := List.mem_map.mp hy
      exact Phase.pledge_nonneg (h.phases w)
    exact Or.inr ⟨x, hx, by linarith⟩

/-- Whatever was recorded and answered before: as long as every check that allows had the ledger to itself,
the runs it allowed spend no more than was approved. -/
theorem within_of_careful [DecidableEq ω] (fm : GateFormats) (hasRunsRoot : Bool) (spec : ExperimentSpec)
    (answered : List (Answered enc)) (outcomes : List ExperimentOutcome) (budgets : Text → Option ℚ)
    (ls : List (ω × Action enc))
    (h : Meets (step fm hasRunsRoot spec) (fun net l => careful fm spec net l) { answered, outcomes, budgets } ls) :
    Everywhere (step fm hasRunsRoot spec) (Net.Within fm spec) { answered, outcomes, budgets } ls := by
  have hstart : Inv fm hasRunsRoot spec ({ answered, outcomes, budgets } : Net enc ω) :=
    ⟨by simp, fun _ => by simp [Phase.run], fun _ hr => by simp at hr, fun hruns => absurd rfl hruns,
      fun _ hal => by simp at hal, fun _ => trivial⟩
  exact (everywhere_of_meets inv_step hstart h).mono fun _ => Inv.within

def plainEncoders : Encoders where
  requestHash b := b.question
  canonicalObject := .ok
  repr := id
  reprs := List.flatten

def plainGateFormats : GateFormats where
  requestedBudget _ := none
  f4 _ := []
  str _ := []

def tenDollars : ExperimentSpec where
  experimentId := ['e']
  estimatedCostUsd := some 10
  approvedBy := some ['o']

def repairOf (runId : Text) : Ask := ⟨"repair-within-approved-experiment".toList, runId, 6⟩

def outcomeOf (runId : Text) : ExperimentOutcome where
  experimentId := ['e']
  runId := runId
  stoppedReason := []
  generationsPlanned := 1
  generationsCompleted := 1
  evalCostUsd := 0
  createdAt := 0

def oneAfterAnother : List (Bool × Action plainEncoders) :=
  [(false, .ask (repairOf ['r'])), (false, .readOutcomes), (false, .judge), (false, .start), (false, .charge 6),
    (false, .record (outcomeOf ['r'])), (true, .ask (repairOf ['s'])), (true, .readOutcomes), (true, .readMeter), (true, .judge)]

theorem within_of_careful_oneAfterAnother :
    Everywhere (step plainGateFormats true tenDollars) (Net.Within plainGateFormats tenDollars)
      { answered := [], outcomes := [], budgets := fun _ => none } oneAfterAnother :=
  within_of_careful plainGateFormats true tenDollars [] [] (fun _ => none) oneAfterAnother
    (meets_of_check (by decide +kernel))

def sideBySide : List (Bool × Action plainEncoders) :=
  [(false, .ask (repairOf ['r'])), (true, .ask (repairOf ['s'])), (false, .readOutcomes), (true, .readOutcomes),
    (false, .judge), (true, .judge), (false, .start), (true, .start), (false, .charge 6), (true, .charge 6),
    (false, .record (outcomeOf ['r'])), (true, .record (outcomeOf ['s']))]

theorem side_by_side_overspends :
    ¬ Everywhere (step plainGateFormats true tenDollars) (Net.Within plainGateFormats tenDollars)
      { answered := [], outcomes := [], budgets := fun _ => none } sideBySide := by
  intro h
  obtain ⟨t, ht, hend⟩ : ∃ t, run (step plainGateFormats true tenDollars)
      { answered := [], outcomes := [], budgets := fun _ => none } sideBySide = some t ∧
        (t.runs.length, t.answered.length, t.total) = (2, 0, 12) := by
    have hrun : (run (step plainGateFormats true tenDollars)
        { answered := [], outcomes := [], budgets := fun _ => none } sideBySide).map
          (fun t => (t.runs.length, t.answered.length, t.total)) = some (2, 0, 12) := by
      decide +kernel
    exact Option.map_eq_some_iff.mp hrun
  simp only [Prod.mk.injEq, List.length_eq_zero_iff] at hend
  obtain ⟨hruns, hanswered, htotal⟩ := hend
  cases everywhere_last h ht with
  | inl hnone => simp [hnone] at hruns
  | inr hsome =>
    obtain ⟨x, hx, hle⟩ := hsome
    rw [htotal] at hle
    cases hx with
    | spec hby hx =>
      obtain rfl := Option.some.inj hx
      exact absurd hle (by decide)
    | card hp hid hkind haction hx => simp [hanswered] at hp

end EvoHarness.Research.Spending
