import EvoHarness.Core.LineageVeto
import EvoHarness.Core.SearchLoop

/-! Proposals one by one and at once. What plans, proposes and judges is deterministic here, so
that two runs from one state can be compared. -/
namespace EvoHarness.Core.Population.Proposing
open PyText Hoare

structure Contents where
  workspace : Workspace
  operator : Text
  changeTitle : Text
  lineageAncestors : List Text

structure InspirationDraw where
  archive : List Candidate := []
  topK : List Candidate := []
  notes : List (Text × Text) := []

structure MutationContext where
  parent : Candidate
  archiveInspirations : List Candidate
  topKInspirations : List Candidate
  inspirationNotes : List (Text × Text)
  operator : Text
  generation : ℕ
  failedAttempts : List (Text × ℚ)

structure MergePlan where
  base : Candidate
  title : Text
  summary : Text

structure ProposalPlan where
  lane : Text
  island : IslandView
  parent : Candidate
  operator : Text
  inspirations : InspirationDraw := {}
  system : Text
  user : Text
  merge : Option MergePlan := none

inductive RejectionKind where
  | proposalFailed
  | preflight
  | novelty
  deriving DecidableEq

structure RejectionEvent where
  kind : RejectionKind
  generation : ℕ
  operator : Text
  parentId : Text
  proposalCode : Option Text := none
  proposalWorkspace : Option Workspace := none
  changeTitle : Text := []
  failureReason : Text := []
  maxSimilarity : ℚ := 0
  mostSimilarId : Option Text := none

structure Child where
  id : ℕ
  workspace : Workspace
  generation : ℕ
  parentId : Text
  islandIdx : ℕ
  operator : Text
  changeTitle : Text
  changeSummary : Text
  modelName : Text
  inspirationIds : List Text
  embedding : Option (List ℚ)
  proposalMode : Option Text
  preflightStages : Option (List Text)
  lineageParentId : Option Text
  lineageAncestors : List Text

inductive GateVerdict where
  | accepted (embedding : Option (List ℚ))
  | rejected (maxSimilarity : ℚ) (mostSimilarId : Option Text)

/-- What planning reads and writes: the store, and `draws`, the generator with the state of the
selectors and prompt builders. -/
structure Desk (σ : Type) where
  pop : List Candidate
  draws : σ

/-- What absorption reads and writes. `memory` is what the observers keep of the events they
heard; `ids` counts the fresh ids. -/
structure Books (μ γ β : Type) where
  budget : β
  report : RunReport
  memory : μ
  events : List RejectionEvent
  gate : γ
  ids : ℕ

structure World (σ μ γ β : Type) where
  desk : Desk σ
  books : Books μ γ β

structure Setup (σ μ γ β : Type) where
  planning : Planning
  maxNoveltyAttempts : ℕ := 3
  hasSelector : Bool := false
  contents : Text → Contents
  mainText : Workspace → Text
  withMainText : Workspace → Text → Workspace
  noveltyText : Workspace → Text → Text
  lane : ℕ → List Candidate → Prog σ RunFault Text
  mergePlanner : Option (IslandView → Prog σ RunFault (Option MergePlan)) := none
  random : Prog σ RunFault ℚ
  sample : List Candidate → IslandView → Prog σ RunFault (Option Candidate)
  inspirations : Candidate → List Candidate → Prog σ RunFault InspirationDraw
  sampleOperator : Bool → Prog σ RunFault Text
  build : Text → MutationContext → μ → List Candidate → Prog σ RunFault (Text × Text)
  buildRepair : Text → Candidate → μ → List Candidate → Prog σ RunFault (Text × Text)
  propose : Text → Text → Candidate → Text → Text → Except RunFault ProposeResult
  preflight : Option (Candidate → Text → Workspace → Bool → Except Refusal (Workspace × List Text)) := none
  noveltyGate : Option (Text → IslandView → Prog γ RunFault GateVerdict) := none
  charge : ℚ≥0 → Prog β RunFault Unit
  heard : μ → RejectionEvent → μ

section
variable {σ μ γ β α : Type}

def onDraws (m : Prog σ RunFault α) : Prog (Desk σ) RunFault α := fun d =>
  ((m d.draws).1, { d with draws := (m d.draws).2 })

def onGate (m : Prog γ RunFault α) : Prog (Books μ γ β) RunFault α := fun b =>
  ((m b.gate).1, { b with gate := (m b.gate).2 })

def onBudget (m : Prog β RunFault α) : Prog (Books μ γ β) RunFault α := fun b =>
  ((m b.budget).1, { b with budget := (m b.budget).2 })

def onDesk (m : μ → Prog (Desk σ) RunFault α) : Prog (World σ μ γ β) RunFault α := fun w =>
  ((m w.books.memory w.desk).1, { w with desk := (m w.books.memory w.desk).2 })

def onBooks (m : Prog (Books μ γ β) RunFault α) : Prog (World σ μ γ β) RunFault α := fun w =>
  ((m w.books).1, { w with books := (m w.books).2 })

def ofExcept {ω : Type} : Except RunFault α → Prog ω RunFault α
  | .ok a => pure a
  | .error e => Prog.raise e

def changeReport (f : RunReport → RunReport) : Prog (Books μ γ β) RunFault Unit :=
  Prog.modify fun b => { b with report := f b.report }

end

def noteAttempt (pop : List Candidate) (parentId : Text) : List Candidate :=
  pop.map fun c => if c.id = parentId then { c with childrenCount := c.childrenCount + 1 } else c

def markRepairAttempted (pop : List Candidate) (id : Text) : List Candidate :=
  pop.map fun c => if c.id = id then { c with repairAttempted := true } else c

def allCandidates (pop : List Candidate) : List Candidate :=
  pop.mergeSort fun a b => decide (a.generation < b.generation ∨ a.generation = b.generation ∧ a.timestamp ≤ b.timestamp)

def failedAttemptsShown : ℕ := 12

section
variable {σ μ γ β : Type} (s : Setup σ μ γ β)

/-- `_failed_attempts`: the titles of what did not gain on the parent, the latest of them. -/
def Setup.failedAttempts (pop : List Candidate) (parent : Candidate) : List (Text × ℚ) :=
  let rows := (allCandidates pop).filter fun c =>
    !((s.contents c.id).operator == "seed".toList || (s.contents c.id).changeTitle == []) &&
      !decide (0 < c.fitness - parent.fitness)
  let out := rows.map fun c => ((s.contents c.id).changeTitle, c.fitness - parent.fitness)
  out.drop (out.length - failedAttemptsShown)

def Setup.planMerge (lane : Text) (island : IslandView) (merge : MergePlan) : Prog (Desk σ) RunFault (Option ProposalPlan) := do
  Prog.modify fun d => { d with pop := noteAttempt d.pop merge.base.id }
  pure (some { lane, island, parent := merge.base, operator := "merge".toList, system := [], user := [], merge := some merge })

def Setup.planRepair (memory : μ) (lane : Text) (island : IslandView) (failed : Candidate) :
    Prog (Desk σ) RunFault (Option ProposalPlan) := do
  Prog.modify fun d => { d with pop := markRepairAttempted d.pop failed.id }
  let d ← Prog.get
  let prompt ← onDraws (s.buildRepair lane failed memory d.pop)
  pure (some { lane, island, parent := failed, operator := "repair".toList, system := prompt.1, user := prompt.2 })

def Setup.planMutation (memory : μ) (generation : ℕ) (lane : Text) (island : IslandView) (parent : Candidate) :
    Prog (Desk σ) RunFault (Option ProposalPlan) := do
  Prog.modify fun d => { d with pop := noteAttempt d.pop parent.id }
  let d ← Prog.get
  let inspirations ← onDraws (s.inspirations parent d.pop)
  let operator ← onDraws (s.sampleOperator (inspirations.archive ≠ [] ∨ inspirations.topK ≠ []))
  let context : MutationContext :=
    { parent, archiveInspirations := inspirations.archive, topKInspirations := inspirations.topK,
      inspirationNotes := inspirations.notes, operator, generation, failedAttempts := s.failedAttempts d.pop parent }
  let prompt ← onDraws (s.build lane context memory d.pop)
  pure (some { lane, island, parent, operator, inspirations, system := prompt.1, user := prompt.2 })

def Setup.offerMerge (island : IslandView) : Prog (Desk σ) RunFault (Option MergePlan) :=
  match s.mergePlanner with
  | none => pure none
  | some offer => onDraws (offer island)

def Setup.throttled : Option Candidate → Prog (Desk σ) RunFault (Option Candidate)
  | none => pure none
  | some failed => do
    let roll ← onDraws s.random
    pure (if s.planning.repairProbability ≤ roll then none else some failed)

def Setup.planProposal (generation slot : ℕ) (memory : μ) : Prog (Desk σ) RunFault (Option ProposalPlan) := do
  let d ← Prog.get
  match s.planning.pickIsland d.pop generation slot with
  | none => pure none
  | some island => do
    let lane ← onDraws (s.lane generation d.pop)
    let merge ← s.offerMerge island
    match merge with
    | some merge => Setup.planMerge lane island merge
    | none => do
      let failed ← s.throttled (if s.planning.repairEnabled = true then latestFailed d.pop else none)
      match failed with
      | some failed => s.planRepair memory lane island failed
      | none => do
        let parent ← onDraws (s.sample d.pop island)
        match parent with
        | none => pure none
        | some parent => s.planMutation memory generation lane island parent

def Setup.executePlan (plan : ProposalPlan) : Except RunFault ProposeResult :=
  match plan.merge with
  | none => s.propose plan.lane plan.operator plan.parent plan.system plan.user
  | some merge =>
    let workspace := (s.contents merge.base.id).workspace
    .ok ⟨some ⟨s.mainText workspace, merge.title, merge.summary, "(state-merge)".toList, some workspace⟩, 0, 1, none, none,
      SearchLoop.merged_reason _⟩

def Setup.notifyRejected (event : RejectionEvent) : Prog (Books μ γ β) RunFault Unit :=
  Prog.modify fun b => { b with memory := s.heard b.memory event, events := b.events ++ [event] }

def Setup.proposalFailed (generation : ℕ) (plan : ProposalPlan) (result : ProposeResult) :
    Prog (Books μ γ β) RunFault (Option Child × Bool) := do
  changeReport fun r => { r with
    proposalsFailed := r.proposalsFailed + 1
    history := r.history ++ [.proposalFailed generation plan.parent.id plan.operator
      (if s.hasSelector = true then some plan.lane else none) result.failureReason result.tracePath result.attempts
      result.llmCost] }
  s.notifyRejected
    { kind := .proposalFailed, generation, operator := plan.operator, parentId := plan.parent.id
      failureReason := result.failureReason.getD [] }
  pure (none, false)

def Setup.preflightFailed (generation : ℕ) (plan : ProposalPlan) (proposal : Proposal) (refusal : Refusal) :
    Prog (Books μ γ β) RunFault (Option Child × Bool) := do
  let reason := SearchLoop.refusalReason refusal.issues
  changeReport fun r => { r with
    proposalsFailed := r.proposalsFailed + 1
    history := r.history ++ [.preflightFailed generation plan.parent.id plan.operator reason refusal.failedStage
      refusal.issues] }
  s.notifyRejected
    { kind := .preflight, generation, operator := plan.operator, parentId := plan.parent.id
      proposalCode := some proposal.code, proposalWorkspace := proposal.workspace, changeTitle := proposal.title
      failureReason := reason }
  pure (none, true)

def Setup.noveltyRejected (generation : ℕ) (plan : ProposalPlan) (proposal : Proposal) (similarity : ℚ)
    (similarId : Option Text) : Prog (Books μ γ β) RunFault (Option Child × Bool) := do
  changeReport fun r => { r with noveltyRejections := r.noveltyRejections + 1 }
  s.notifyRejected
    { kind := .novelty, generation, operator := plan.operator, parentId := plan.parent.id
      proposalCode := some proposal.code, proposalWorkspace := proposal.workspace, changeTitle := proposal.title
      maxSimilarity := similarity, mostSimilarId := similarId }
  pure (none, true)

def ancestryDepth : ℕ := 8

def Setup.accepted (generation : ℕ) (plan : ProposalPlan) (proposal : Proposal) (workspace : Workspace)
    (stages : Option (List Text)) (embedding : Option (List ℚ)) : Prog (Books μ γ β) RunFault (Option Child × Bool) := do
  let b ← Prog.get
  Prog.modify fun b => { b with ids := b.ids + 1 }
  let origin := plan.parent.seedCopyOf.filter (· ≠ [])
  pure (some
    { id := b.ids, workspace, generation, parentId := plan.parent.id, islandIdx := plan.parent.islandIdx
      operator := plan.operator, changeTitle := proposal.title, changeSummary := proposal.summary
      modelName := proposal.model
      inspirationIds := (plan.inspirations.archive ++ plan.inspirations.topK).map Candidate.id
      embedding, proposalMode := if s.hasSelector = true then some plan.lane else none, preflightStages := stages
      lineageParentId := origin
      lineageAncestors :=
        ((origin.getD plan.parent.id) :: (s.contents plan.parent.id).lineageAncestors).take ancestryDepth }, false)

def Setup.verdictReached (generation : ℕ) (plan : ProposalPlan) (proposal : Proposal) (workspace : Workspace)
    (stages : Option (List Text)) : GateVerdict → Prog (Books μ γ β) RunFault (Option Child × Bool)
  | .accepted embedding => s.accepted generation plan proposal workspace stages embedding
  | .rejected similarity similarId => s.noveltyRejected generation plan proposal similarity similarId

def Setup.judged (generation : ℕ) (plan : ProposalPlan) (proposal : Proposal) (workspace : Workspace)
    (stages : Option (List Text)) : Prog (Books μ γ β) RunFault (Option Child × Bool) :=
  match s.noveltyGate, plan.merge with
  | some check, none =>
    onGate (check (s.noveltyText workspace proposal.code) plan.island) >>=
      s.verdictReached generation plan proposal workspace stages
  | _, _ => s.accepted generation plan proposal workspace stages none

def Setup.absorbProposed (generation : ℕ) (plan : ProposalPlan) (proposal : Proposal) :
    Prog (Books μ γ β) RunFault (Option Child × Bool) :=
  let workspace := proposal.workspace.getD (s.withMainText (s.contents plan.parent.id).workspace proposal.code)
  match s.preflight with
  | none => s.judged generation plan proposal workspace none
  | some run =>
    match run plan.parent plan.operator workspace plan.merge.isNone with
    | .error refusal => s.preflightFailed generation plan proposal refusal
    | .ok checked => s.judged generation plan proposal checked.1 (some checked.2)

/-- `_absorb_proposal`: the candidate, and whether to plan again. -/
def Setup.absorbProposal (generation : ℕ) (plan : ProposalPlan) (result : ProposeResult) :
    Prog (Books μ γ β) RunFault (Option Child × Bool) := do
  onBudget (s.charge result.llmCost)
  changeReport fun r => { r with totalLlmCost := r.totalLlmCost + result.llmCost }
  match result.proposal with
  | none => s.proposalFailed generation plan result
  | some proposal => s.absorbProposed generation plan proposal

def Setup.proposeFrom (generation slot : ℕ) : ℕ → Prog (World σ μ γ β) RunFault (Option Child)
  | 0 => pure none
  | left + 1 => do
    let plan ← onDesk (s.planProposal generation slot)
    match plan with
    | none => pure none
    | some plan => do
      let result ← ofExcept (s.executePlan plan)
      let absorbed ← onBooks (s.absorbProposal generation plan result)
      match absorbed with
      | (some child, _) => pure (some child)
      | (none, false) => pure none
      | (none, true) => Setup.proposeFrom generation slot left

def Setup.proposeSlot (generation slot : ℕ) : Prog (World σ μ γ β) RunFault (Option Child) :=
  s.proposeFrom generation slot s.maxNoveltyAttempts

def Setup.proposeEach (generation : ℕ) : ℕ → ℕ → Prog (World σ μ γ β) RunFault (List Child)
  | _, 0 => pure []
  | slot, left + 1 => do
    let child ← s.proposeSlot generation slot
    let rest ← Setup.proposeEach generation (slot + 1) left
    pure (child.toList ++ rest)

def Setup.planAhead (generation : ℕ) (memory : μ) : ℕ → ℕ → Prog (Desk σ) RunFault (List ProposalPlan)
  | _, 0 => pure []
  | slot, left + 1 => do
    let plan ← s.planProposal generation slot memory
    match plan with
    | none => pure []
    | some plan => do
      let rest ← Setup.planAhead generation memory (slot + 1) left
      pure (plan :: rest)

def Setup.answered (order : List ℕ) (plans : List ProposalPlan) : List (Option (Except RunFault ProposeResult)) :=
  order.foldl (fun futures i => futures.set i (plans[i]?.map s.executePlan)) (plans.map fun _ => none)

/-- `f.result()` of every future, in the order of the plans. -/
def gather : List (Option (Except RunFault ProposeResult)) → Except RunFault (List ProposeResult)
  | [] => .ok []
  | none :: _ => .error (.other "pending".toList)
  | some answer :: rest => do
    let result ← answer
    let results ← gather rest
    pure (result :: results)

def Setup.orResample (generation : ℕ) : Option Child × Bool → Prog (World σ μ γ β) RunFault (Option Child)
  | (some child, _) => pure (some child)
  | (none, false) => pure none
  | (none, true) => s.proposeSlot generation 0

def Setup.absorbAll (generation : ℕ) : List (ProposalPlan × ProposeResult) → Prog (World σ μ γ β) RunFault (List Child)
  | [] => pure []
  | (plan, result) :: rest => do
    let absorbed ← onBooks (s.absorbProposal generation plan result)
    let child ← s.orResample generation absorbed
    let more ← Setup.absorbAll generation rest
    pure (child.toList ++ more)

def Setup.proposeMany (proposalConcurrency generation count : ℕ) (order : List ℕ) :
    Prog (World σ μ γ β) RunFault (List Child) :=
  if max 1 (min proposalConcurrency count) = 1 then s.proposeEach generation 0 count
  else do
    let plans ← onDesk fun memory => s.planAhead generation memory 0 count
    let results ← ofExcept (gather (s.answered order plans))
    s.absorbAll generation (plans.zip results)

/-- A slot of the run one by one: the world before it, and what planning made of it. -/
structure Visit (σ μ γ β : Type) where
  slot : ℕ
  before : World σ μ γ β
  plan : Option ProposalPlan
  desk : Desk σ

def Setup.visits (generation : ℕ) : ℕ → ℕ → World σ μ γ β → List (Visit σ μ γ β)
  | _, 0, _ => []
  | slot, left + 1, w =>
    match s.planProposal generation slot w.books.memory w.desk with
    | (.error _, _) => []
    | (.ok plan, desk) => ⟨slot, w, plan, desk⟩ ::
      match s.proposeSlot generation slot w with
      | (.error _, _) => []
      | (.ok _, w') => Setup.visits generation (slot + 1) left w'

/-- From the first slot without a plan on, no slot has one, and planning leaves the desk as that slot did. -/
structure PlansEnd (visits : List (Visit σ μ γ β)) : Prop where
  none : ∀ v ∈ visits.dropWhile (·.plan.isSome), v.plan = none
  desk : ∀ first ∈ (visits.dropWhile (·.plan.isSome)).head?,
    ∀ last ∈ (visits.dropWhile (·.plan.isSome)).getLast?, last.desk = first.desk

def Unheard (generation : ℕ) (memory : μ) (visits : List (Visit σ μ γ β)) : Prop :=
  ∀ v ∈ visits, s.planProposal generation v.slot memory v.before.desk =
    s.planProposal generation v.slot v.before.books.memory v.before.desk

def Clean (b b' : Books μ γ β) : Prop :=
  ∃ events, b'.events = b.events ++ events ∧ ∀ e ∈ events, e.kind = .proposalFailed

/-- No proposal of the batch is rejected by preflight or novelty, one by one or at once. -/
def NothingRejected (proposalConcurrency generation count : ℕ) (w : World σ μ γ β) : Prop :=
  ∀ concurrency ∈ [1, proposalConcurrency], ∀ order : List ℕ, order.Perm (List.range count) →
    Clean w.books (s.proposeMany concurrency generation count order w).2.books

/-- The same candidates in the same order, or the same exception, and the same world, whatever the order in which
the workers end. -/
def AsSerial (proposalConcurrency generation count : ℕ) (w : World σ μ γ β) : Prop :=
  ∀ order : List ℕ, order.Perm (List.range count) →
    s.proposeMany proposalConcurrency generation count order w = s.proposeMany 1 generation count order w

end

section
variable {σ μ γ β α : Type} {s : Setup σ μ γ β} {generation slot left count : ℕ} {plan : ProposalPlan}
  {result : ProposeResult} {b b' b'' : Books μ γ β} {w w' : World σ μ γ β} {memory : μ} {child : Option Child}
  {children : List Child}

def taken (b : Books μ γ β) : ℕ := b.ids + b.report.proposalsFailed

structure Settled (b b' : Books μ γ β) : Prop where
  clean : Clean b b'
  taken : taken b' = taken b + 1

def Rejected (b b' : Books μ γ β) : Prop := ∃ e, e.kind ≠ .proposalFailed ∧ b'.events = b.events ++ [e]

theorem accepted_returns {proposal : Proposal} {workspace : Workspace} {stages : Option (List Text)}
    {embedding : Option (List ℚ)} {absorbed : Option Child × Bool}
    (h : s.accepted generation plan proposal workspace stages embedding b = (.ok absorbed, b')) :
    absorbed.2 = false ∧ Settled b b' := by
  cases h
  refine ⟨rfl, ⟨[], by simp, by simp⟩, ?_⟩
  simp only [taken]
  omega

theorem Settled.congr {b₁ : Books μ γ β} (h : Settled b₁ b') (hevents : b₁.events = b.events) (htaken : Proposing.taken b₁ = Proposing.taken b) :
    Settled b b' := by
  obtain ⟨⟨events, hnew, hkinds⟩, hone⟩ := h
  exact ⟨⟨events, by rw [hnew, hevents], hkinds⟩, by rw [hone, htaken]⟩

theorem Rejected.congr {b₁ : Books μ γ β} (h : Rejected b₁ b') (hevents : b₁.events = b.events) : Rejected b b' := by
  obtain ⟨e, hkind, hnew⟩ := h
  exact ⟨e, hkind, by rw [hnew, hevents]⟩

theorem gated_returns {check : Prog γ RunFault GateVerdict} {proposal : Proposal} {workspace : Workspace}
    {stages : Option (List Text)} {absorbed : Option Child × Bool}
    (h : (onGate check >>= s.verdictReached generation plan proposal workspace stages) b = (.ok absorbed, b')) :
    absorbed.2 = false ∧ Settled b b' ∨ absorbed = (none, true) ∧ Rejected b b' := by
  obtain ⟨verdict, b₁, hverdict, hrest⟩ := Prog.bind_returns h
  have hevents : b₁.events = b.events := (congrArg (fun r => r.2.events) hverdict).symm
  have htaken : taken b₁ = taken b := (congrArg (fun r => taken r.2) hverdict).symm
  cases verdict with
  | accepted embedding =>
    obtain ⟨hfalse, hsettled⟩ := accepted_returns hrest
    exact Or.inl ⟨hfalse, hsettled.congr hevents htaken⟩
  | rejected similarity similarId =>
    have hrejected : absorbed = (none, true) ∧ Rejected b₁ b' := by
      cases hrest
      refine ⟨rfl, _, ?_, rfl⟩
      intro hkind
      cases hkind
    exact Or.inr ⟨hrejected.1, hrejected.2.congr hevents⟩

theorem judged_returns {proposal : Proposal} {workspace : Workspace} {stages : Option (List Text)}
    {absorbed : Option Child × Bool} (h : s.judged generation plan proposal workspace stages b = (.ok absorbed, b')) :
    absorbed.2 = false ∧ Settled b b' ∨ absorbed = (none, true) ∧ Rejected b b' := by
  unfold Setup.judged at h
  cases hgate : s.noveltyGate with
  | none =>
    rw [hgate] at h
    exact Or.inl (accepted_returns h)
  | some check =>
    rw [hgate] at h
    cases hmerge : plan.merge with
    | some merge =>
      rw [hmerge] at h
      exact Or.inl (accepted_returns h)
    | none =>
      rw [hmerge] at h
      exact gated_returns h

theorem absorbProposed_returns {proposal : Proposal} {absorbed : Option Child × Bool}
    (h : s.absorbProposed generation plan proposal b = (.ok absorbed, b')) :
    absorbed.2 = false ∧ Settled b b' ∨ absorbed = (none, true) ∧ Rejected b b' := by
  unfold Setup.absorbProposed at h
  cases hpreflight : s.preflight with
  | none =>
    simp only [hpreflight] at h
    exact judged_returns h
  | some run =>
    simp only [hpreflight] at h
    cases hrun : run plan.parent plan.operator
        (proposal.workspace.getD (s.withMainText (s.contents plan.parent.id).workspace proposal.code)) plan.merge.isNone with
    | error refusal =>
      rw [hrun] at h
      cases h
      refine Or.inr ⟨rfl, _, ?_, rfl⟩
      intro hkind
      cases hkind
    | ok checked =>
      rw [hrun] at h
      exact judged_returns h

theorem absorbProposal_returns {absorbed : Option Child × Bool}
    (h : s.absorbProposal generation plan result b = (.ok absorbed, b')) :
    absorbed.2 = false ∧ Settled b b' ∨ absorbed = (none, true) ∧ Rejected b b' := by
  obtain ⟨_, b₁, hcharge, hrest⟩ := Prog.bind_returns h
  obtain ⟨_, b₂, hreport, hrest⟩ := Prog.bind_returns hrest
  have hevents : b₂.events = b.events := by
    have hfirst : b₁.events = b.events := (congrArg (fun r => r.2.events) hcharge).symm
    have hsecond : b₂.events = b₁.events := (congrArg (fun r => r.2.events) hreport).symm
    exact hsecond.trans hfirst
  have htaken : taken b₂ = taken b := by
    have hfirst : taken b₁ = taken b := (congrArg (fun r => taken r.2) hcharge).symm
    have hsecond : taken b₂ = taken b₁ := (congrArg (fun r => taken r.2) hreport).symm
    exact hsecond.trans hfirst
  have hcases : absorbed.2 = false ∧ Settled b₂ b' ∨ absorbed = (none, true) ∧ Rejected b₂ b' := by
    cases hproposal : result.proposal with
    | none =>
      rw [hproposal] at hrest
      cases hrest
      refine Or.inl ⟨rfl, ⟨[_], rfl, ?_⟩, ?_⟩
      · intro e he
        rw [List.mem_singleton.mp he]
      · simp only [taken]
        omega
    | some proposal =>
      rw [hproposal] at hrest
      exact absorbProposed_returns hrest
  cases hcases with
  | inl hsettled => exact Or.inl ⟨hsettled.1, hsettled.2.congr hevents htaken⟩
  | inr hrejected => exact Or.inr ⟨hrejected.1, hrejected.2.congr hevents⟩

theorem Clean.refl (b : Books μ γ β) : Clean b b := ⟨[], by simp, by simp⟩

structure Grows (b b' : Books μ γ β) : Prop where
  events : b.events <+: b'.events

theorem Grows.trans (h : Grows b b') (h' : Grows b' b'') : Grows b b'' := ⟨h.events.trans h'.events⟩

theorem Clean.grows (h : Clean b b') : Grows b b' := by
  obtain ⟨events, hevents, _⟩ := h
  exact ⟨⟨events, hevents.symm⟩⟩

theorem Clean.split (h : Clean b b'') (hfirst : Grows b b') (hsecond : Grows b' b'') : Clean b b' ∧ Clean b' b'' := by
  obtain ⟨events, hevents, hkinds⟩ := h
  obtain ⟨new, hnew⟩ := hfirst.events
  obtain ⟨more, hmore⟩ := hsecond.events
  have hsplit : events = new ++ more := by
    rw [← hmore, ← hnew, List.append_assoc] at hevents
    exact (List.append_cancel_left hevents).symm
  rw [hsplit, List.forall_mem_append] at hkinds
  exact ⟨⟨new, hnew.symm, hkinds.1⟩, ⟨more, hmore.symm, hkinds.2⟩⟩

theorem Rejected.not_clean (h : Rejected b b') : ¬ Clean b b' := by
  intro hclean
  obtain ⟨e, hkind, hnew⟩ := h
  obtain ⟨events, hevents, hkinds⟩ := hclean
  rw [hnew] at hevents
  have hmem : e ∈ events := by
    rw [← List.append_cancel_left hevents]
    exact List.mem_singleton.mpr rfl
  exact hkind (hkinds e hmem)

theorem Rejected.grows (h : Rejected b b') : Grows b b' := by
  obtain ⟨e, _, hnew⟩ := h
  exact ⟨⟨[e], hnew.symm⟩⟩

theorem absorbProposal_grows {absorbed : Option Child × Bool}
    (h : s.absorbProposal generation plan result b = (.ok absorbed, b')) : Grows b b' := by
  cases absorbProposal_returns h with
  | inl hsettled => exact hsettled.2.clean.grows
  | inr hrejected => exact hrejected.2.grows

structure Absorbs (s : Setup σ μ γ β) (generation slot : ℕ) (w : World σ μ γ β) (plan : ProposalPlan) (result : ProposeResult)
    (absorbed : Option Child × Bool) (w' : World σ μ γ β) : Prop where
  planned : s.planProposal generation slot w.books.memory w.desk = (.ok (some plan), w'.desk)
  executed : s.executePlan plan = .ok result
  absorbed : s.absorbProposal generation plan result w.books = (.ok absorbed, w'.books)

theorem ofExcept_returns {ω : Type} {x : Except RunFault α} {a : α} {v v' : ω} (h : ofExcept x v = (.ok a, v')) :
    x = .ok a ∧ v' = v := by
  cases x with
  | error e => cases h
  | ok c =>
    cases h
    exact ⟨rfl, rfl⟩

theorem onDesk_returns {m : μ → Prog (Desk σ) RunFault α} {a : α} (h : onDesk m w = (.ok a, w')) :
    m w.books.memory w.desk = (.ok a, w'.desk) ∧ w'.books = w.books := by
  have hvalue : (m w.books.memory w.desk).1 = .ok a := congrArg Prod.fst h
  have hdesk : (m w.books.memory w.desk).2 = w'.desk := congrArg (fun r => r.2.desk) h
  have hbooks : w.books = w'.books := congrArg (fun r => r.2.books) h
  exact ⟨Prod.ext hvalue hdesk, hbooks.symm⟩

theorem onBooks_returns {m : Prog (Books μ γ β) RunFault α} {a : α} (h : onBooks m w = (.ok a, w')) :
    m w.books = (.ok a, w'.books) ∧ w'.desk = w.desk := by
  have hvalue : (m w.books).1 = .ok a := congrArg Prod.fst h
  have hbooks : (m w.books).2 = w'.books := congrArg (fun r => r.2.books) h
  have hdesk : w.desk = w'.desk := congrArg (fun r => r.2.desk) h
  exact ⟨Prod.ext hvalue hbooks, hdesk.symm⟩

theorem proposeFrom_returns (h : s.proposeFrom generation slot (left + 1) w = (.ok child, w')) :
    s.planProposal generation slot w.books.memory w.desk = (.ok none, w'.desk) ∧ child = none ∧ w'.books = w.books ∨
      ∃ plan result absorbed w₁, Absorbs s generation slot w plan result absorbed w₁ ∧
        (absorbed = (child, false) ∧ w' = w₁ ∨
          absorbed = (none, true) ∧ s.proposeFrom generation slot left w₁ = (.ok child, w')) := by
  obtain ⟨planned, w₁, hplan, hrest⟩ := Prog.bind_returns h
  obtain ⟨hplanned, hbooks⟩ := onDesk_returns hplan
  cases planned with
  | none =>
    cases hrest
    exact Or.inl ⟨hplanned, rfl, hbooks⟩
  | some plan =>
    obtain ⟨result, w₂, hexecuted, hrest⟩ := Prog.bind_returns hrest
    obtain ⟨hresult, hsame⟩ := ofExcept_returns hexecuted
    obtain ⟨absorbed, w₃, habsorbed, hrest⟩ := Prog.bind_returns hrest
    obtain ⟨habsorb, hdesk⟩ := onBooks_returns habsorbed
    rw [hsame, hbooks] at habsorb
    rw [hsame] at hdesk
    refine Or.inr ⟨plan, result, absorbed, w₃, ⟨by rw [hdesk]; exact hplanned, hresult, habsorb⟩, ?_⟩
    cases absorbProposal_returns habsorb with
    | inr hrejected =>
      rw [hrejected.1] at hrest
      exact Or.inr ⟨hrejected.1, hrest⟩
    | inl hsettled =>
      obtain ⟨found, retry⟩ := absorbed
      have hretry : retry = false := hsettled.1
      rw [hretry] at hrest
      cases found with
      | none =>
        cases hrest
        exact Or.inl ⟨by rw [hretry], rfl⟩
      | some child =>
        cases hrest
        exact Or.inl ⟨by rw [hretry], rfl⟩

theorem proposeFrom_grows (h : s.proposeFrom generation slot left w = (.ok child, w')) : Grows w.books w'.books := by
  induction left generalizing w with
  | zero =>
    cases h
    exact (Clean.refl _).grows
  | succ left ih =>
    cases proposeFrom_returns h with
    | inl hnone =>
      rw [hnone.2.2]
      exact (Clean.refl _).grows
    | inr hplanned =>
      obtain ⟨plan, result, absorbed, w₁, habsorbs, hcases⟩ := hplanned
      have hgrows := absorbProposal_grows habsorbs.absorbed
      cases hcases with
      | inl hdone =>
        rw [hdone.2]
        exact hgrows
      | inr hretry => exact hgrows.trans (ih hretry.2)

/-- A slot in which nothing is rejected: no plan, or a plan whose proposal is taken in. -/
theorem proposeSlot_returns (hattempts : 0 < s.maxNoveltyAttempts)
    (h : s.proposeSlot generation slot w = (.ok child, w')) (hclean : Clean w.books w'.books) :
    s.planProposal generation slot w.books.memory w.desk = (.ok none, w'.desk) ∧ child = none ∧ w'.books = w.books ∨
      ∃ plan result, Absorbs s generation slot w plan result (child, false) w' ∧ taken w'.books = taken w.books + 1 := by
  obtain ⟨left, hleft⟩ := Nat.exists_eq_succ_of_ne_zero (Nat.pos_iff_ne_zero.mp hattempts)
  rw [Setup.proposeSlot, hleft] at h
  cases proposeFrom_returns h with
  | inl hnone => exact Or.inl hnone
  | inr hplanned =>
    obtain ⟨plan, result, absorbed, w₁, habsorbs, hcases⟩ := hplanned
    cases hcases with
    | inl hdone =>
      rw [hdone.1, ← hdone.2] at habsorbs
      refine Or.inr ⟨plan, result, habsorbs, ?_⟩
      cases absorbProposal_returns habsorbs.absorbed with
      | inl hsettled => exact hsettled.2.taken
      | inr hrejected => cases hrejected.1
    | inr hretry =>
      have hrejected : Rejected w.books w₁.books := by
        cases absorbProposal_returns habsorbs.absorbed with
        | inl hsettled =>
          rw [hretry.1] at hsettled
          cases hsettled.1
        | inr hrejected => exact hrejected.2
      have hboth := hclean.split hrejected.grows (proposeFrom_grows hretry.2)
      exact absurd hboth.1 hrejected.not_clean

theorem proposeEach_returns (h : s.proposeEach generation slot (left + 1) w = (.ok children, w')) :
    ∃ child w₁ rest, s.proposeSlot generation slot w = (.ok child, w₁) ∧
      s.proposeEach generation (slot + 1) left w₁ = (.ok rest, w') ∧ children = child.toList ++ rest := by
  obtain ⟨child, w₁, hslot, hrest⟩ := Prog.bind_returns h
  obtain ⟨rest, w₂, hmore, hrest⟩ := Prog.bind_returns hrest
  cases hrest
  exact ⟨child, w₁, rest, hslot, hmore, rfl⟩

theorem proposeEach_grows (h : s.proposeEach generation slot left w = (.ok children, w')) : Grows w.books w'.books := by
  induction left generalizing slot w children with
  | zero =>
    cases h
    exact (Clean.refl _).grows
  | succ left ih =>
    obtain ⟨child, w₁, rest, hslot, hmore, _⟩ := proposeEach_returns h
    exact (proposeFrom_grows hslot).trans (ih hmore)

theorem visits_cons (hattempts : 0 < s.maxNoveltyAttempts)
    (h : s.proposeEach generation slot (left + 1) w = (.ok children, w')) (hclean : Clean w.books w'.books) :
    ∃ child w₁ rest planned, s.proposeSlot generation slot w = (.ok child, w₁) ∧
      s.proposeEach generation (slot + 1) left w₁ = (.ok rest, w') ∧ children = child.toList ++ rest ∧
      Clean w₁.books w'.books ∧ s.planProposal generation slot w.books.memory w.desk = (.ok planned, w₁.desk) ∧
      s.visits generation slot (left + 1) w = ⟨slot, w, planned, w₁.desk⟩ :: s.visits generation (slot + 1) left w₁ ∧
      (planned = none ∧ child = none ∧ w₁.books = w.books ∨
        ∃ plan result, planned = some plan ∧ Absorbs s generation slot w plan result (child, false) w₁ ∧
          taken w₁.books = taken w.books + 1) := by
  obtain ⟨child, w₁, rest, hslot, hmore, hchildren⟩ := proposeEach_returns h
  have hboth := hclean.split (proposeFrom_grows hslot) (proposeEach_grows hmore)
  have hvisits : ∀ planned, s.planProposal generation slot w.books.memory w.desk = (.ok planned, w₁.desk) →
      s.visits generation slot (left + 1) w = ⟨slot, w, planned, w₁.desk⟩ :: s.visits generation (slot + 1) left w₁ := by
    intro planned hplanned
    rw [Setup.visits, hplanned]
    simp only [hslot]
  cases proposeSlot_returns hattempts hslot hboth.1 with
  | inl hnone =>
    exact ⟨child, w₁, rest, none, hslot, hmore, hchildren, hboth.2, hnone.1, hvisits none hnone.1,
      Or.inl ⟨rfl, hnone.2⟩⟩
  | inr hplanned =>
    obtain ⟨plan, result, habsorbs, htaken⟩ := hplanned
    exact ⟨child, w₁, rest, some plan, hslot, hmore, hchildren, hboth.2, habsorbs.planned,
      hvisits (some plan) habsorbs.planned, Or.inr ⟨plan, result, rfl, habsorbs, htaken⟩⟩

/-- What the run leaves: the desk of its last slot, and one proposal more for every plan. -/
theorem visits_end (hattempts : 0 < s.maxNoveltyAttempts)
    (h : s.proposeEach generation slot left w = (.ok children, w')) (hclean : Clean w.books w'.books) :
    w'.desk = ((s.visits generation slot left w).getLast?.map Visit.desk).getD w.desk ∧
      taken w'.books = taken w.books + (s.visits generation slot left w).countP (·.plan.isSome) := by
  induction left generalizing slot w children with
  | zero =>
    cases h
    exact ⟨rfl, rfl⟩
  | succ left ih =>
    obtain ⟨child, w₁, rest, planned, _, hmore, _, hrest, _, hvisits, hcases⟩ := visits_cons hattempts h hclean
    obtain ⟨hdesk, htaken⟩ := ih hmore hrest
    rw [hvisits, List.getLast?_cons, List.countP_cons]
    constructor
    · rw [hdesk]
      cases (s.visits generation (slot + 1) left w₁).getLast? with
      | none => rfl
      | some v => rfl
    · cases hcases with
      | inl hnone =>
        rw [htaken, hnone.2.2, hnone.1]
        rfl
      | inr hplanned =>
        obtain ⟨plan, result, hsome, _, hone⟩ := hplanned
        rw [htaken, hone, hsome]
        simp only [Option.isSome_some, if_true]
        omega

theorem planless_run (hattempts : 0 < s.maxNoveltyAttempts)
    (h : s.proposeEach generation slot left w = (.ok children, w')) (hclean : Clean w.books w'.books)
    (hnone : ∀ v ∈ s.visits generation slot left w, v.plan = none) : children = [] ∧ w'.books = w.books := by
  induction left generalizing slot w children with
  | zero =>
    cases h
    exact ⟨rfl, rfl⟩
  | succ left ih =>
    obtain ⟨child, w₁, rest, planned, _, hmore, hchildren, hrest, _, hvisits, hcases⟩ := visits_cons hattempts h hclean
    rw [hvisits, List.forall_mem_cons] at hnone
    obtain ⟨hnil, hbooks⟩ := ih hmore hrest hnone.2
    cases hcases with
    | inl hcase => exact ⟨by rw [hchildren, hcase.2.1, hnil]; rfl, hbooks.trans hcase.2.2⟩
    | inr hcase =>
      obtain ⟨plan, result, hsome, _⟩ := hcase
      rw [hsome] at hnone
      cases hnone.1

theorem gather_answers {plans : List ProposalPlan} {results : List ProposeResult}
    (h : List.Forall₂ (fun plan result => s.executePlan plan = .ok result) plans results) :
    gather (plans.map fun plan => some (s.executePlan plan)) = .ok results := by
  induction h with
  | nil => rfl
  | cons hfirst _ ih =>
    rw [List.map_cons, gather, hfirst, ih]
    rfl

theorem length_gather {futures : List (Option (Except RunFault ProposeResult))} {results : List ProposeResult}
    (h : gather futures = .ok results) : results.length = futures.length := by
  induction futures generalizing results with
  | nil =>
    cases h
    rfl
  | cons future futures ih =>
    cases future with
    | none => cases h
    | some answer =>
      obtain ⟨result, _, hrest⟩ := ok_of_bind h
      obtain ⟨more, hmore, hrest⟩ := ok_of_bind hrest
      cases hrest
      rw [List.length_cons, List.length_cons, ih hmore]

/-- Whatever the order in which the workers end, each future holds the answer to its own plan. -/
theorem answered_eq {order : List ℕ} {plans : List ProposalPlan} (hlength : plans.length ≤ count)
    (h : order.Perm (List.range count)) : s.answered order plans = plans.map fun plan => some (s.executePlan plan) := by
  have hset : ∀ (order : List ℕ) (futures : List (Option (Except RunFault ProposeResult))), futures.length = plans.length →
      ∀ i, (order.foldl (fun futures i => futures.set i (plans[i]?.map s.executePlan)) futures)[i]? =
        if i ∈ order ∧ i < plans.length then some (plans[i]?.map s.executePlan) else futures[i]? := by
    intro order
    induction order with
    | nil => simp
    | cons j order ih =>
      intro futures hfutures i
      rw [List.foldl_cons, ih _ (by simp [hfutures]), List.getElem?_set]
      by_cases hi : i < plans.length
      · by_cases hmem : i ∈ order
        · simp [hmem, hi]
        · by_cases hj : j = i
          · simp [hj, hi, hmem, hfutures]
          · simp [hj, hi, hmem, Ne.symm hj]
      · have hout : futures[i]? = none := List.getElem?_eq_none (by omega)
        by_cases hj : j = i
        · simp [hj, hi, hfutures]
        · simp [hj, hi, hout]
  apply List.ext_getElem?
  intro i
  rw [Setup.answered, hset order _ (by simp) i]
  by_cases hi : i < plans.length
  · have hmem : i ∈ order := h.mem_iff.mpr (List.mem_range.mpr (by omega))
    simp [hmem, hi]
  · simp [hi]

theorem length_planAhead {d d' : Desk σ} {plans : List ProposalPlan}
    (h : s.planAhead generation memory slot left d = (.ok plans, d')) : plans.length ≤ left := by
  induction left generalizing slot d plans with
  | zero =>
    cases h
    exact le_refl 0
  | succ left ih =>
    obtain ⟨planned, d₁, hplan, hrest⟩ := Prog.bind_returns h
    cases planned with
    | none =>
      cases hrest
      exact Nat.zero_le _
    | some plan =>
      obtain ⟨rest, d₂, hmore, hrest⟩ := Prog.bind_returns hrest
      cases hrest
      exact Nat.succ_le_succ (ih hmore)

theorem proposeMany_order {proposalConcurrency : ℕ} {order : List ℕ} (h : order.Perm (List.range count)) :
    s.proposeMany proposalConcurrency generation count order w =
      s.proposeMany proposalConcurrency generation count (List.range count) w := by
  unfold Setup.proposeMany
  split
  · rfl
  · cases hahead : onDesk (fun memory => s.planAhead generation memory 0 count) w with
    | mk planned w₁ =>
      cases planned with
      | error e => rw [Prog.bind_error hahead, Prog.bind_error hahead]
      | ok plans =>
        have hplans : (s.planAhead generation w.books.memory 0 count w.desk).1 = .ok plans := congrArg Prod.fst hahead
        have hle : plans.length ≤ count := length_planAhead (Prod.ext hplans rfl)
        rw [Prog.bind_ok hahead, Prog.bind_ok hahead, answered_eq hle h, answered_eq hle (List.Perm.refl _)]

theorem planAhead_visits (hattempts : 0 < s.maxNoveltyAttempts)
    (h : s.proposeEach generation slot left w = (.ok children, w')) (hclean : Clean w.books w'.books)
    (hunheard : Unheard s generation memory (s.visits generation slot left w)) :
    ∃ plans, s.planAhead generation memory slot left w.desk = (.ok plans,
        (((s.visits generation slot left w).dropWhile (·.plan.isSome)).head?.map Visit.desk).getD w'.desk) ∧
      plans.length = ((s.visits generation slot left w).takeWhile (·.plan.isSome)).length := by
  induction left generalizing slot w children with
  | zero =>
    cases h
    exact ⟨[], rfl, rfl⟩
  | succ left ih =>
    obtain ⟨child, w₁, rest, planned, _, hmore, _, hrest, hplan, hvisits, hcases⟩ := visits_cons hattempts h hclean
    rw [hvisits] at hunheard ⊢
    rw [Unheard, List.forall_mem_cons] at hunheard
    have hahead : s.planProposal generation slot memory w.desk = (.ok planned, w₁.desk) := hunheard.1.trans hplan
    cases hcases with
    | inl hnone =>
      rw [hnone.1] at hahead ⊢
      exact ⟨[], by rw [Setup.planAhead, Prog.bind_ok hahead]; rfl, rfl⟩
    | inr hplanned =>
      obtain ⟨plan, result, hsome, _⟩ := hplanned
      rw [hsome] at hahead ⊢
      obtain ⟨plans, hplans, hlength⟩ := ih hmore hrest hunheard.2
      refine ⟨plan :: plans, ?_, by simp [hlength]⟩
      rw [Setup.planAhead, Prog.bind_ok hahead]
      exact Prog.bind_ok hplans

/-- Where all later slots go without a plan and leave the desk, the results absorbed together are those absorbed one
by one. -/
theorem absorbAll_visits (hattempts : 0 < s.maxNoveltyAttempts)
    (h : s.proposeEach generation slot left w = (.ok children, w')) (hclean : Clean w.books w'.books)
    (hunheard : Unheard s generation memory (s.visits generation slot left w))
    (hnone : ∀ v ∈ (s.visits generation slot left w).dropWhile (·.plan.isSome), v.plan = none) (d : Desk σ) :
    ∃ plans results, (s.planAhead generation memory slot left w.desk).1 = .ok plans ∧
      List.Forall₂ (fun plan result => s.executePlan plan = .ok result) plans results ∧
      s.absorbAll generation (plans.zip results) ⟨d, w.books⟩ = (.ok children, ⟨d, w'.books⟩) := by
  induction left generalizing slot w children with
  | zero =>
    cases h
    exact ⟨[], [], rfl, List.Forall₂.nil, rfl⟩
  | succ left ih =>
    obtain ⟨child, w₁, rest, planned, _, hmore, hchildren, hrest, hplan, hvisits, hcases⟩ := visits_cons hattempts h hclean
    rw [hvisits] at hunheard hnone
    rw [Unheard, List.forall_mem_cons] at hunheard
    have hahead : s.planProposal generation slot memory w.desk = (.ok planned, w₁.desk) := hunheard.1.trans hplan
    cases hcases with
    | inl hcase =>
      rw [hcase.1] at hahead hnone
      have hbehind : ∀ v ∈ s.visits generation (slot + 1) left w₁, v.plan = none :=
        fun v hv => hnone v (by simp [hv])
      obtain ⟨hnil, hbooks⟩ := planless_run hattempts hmore hrest hbehind
      refine ⟨[], [], by rw [Setup.planAhead, Prog.bind_ok hahead]; rfl, List.Forall₂.nil, ?_⟩
      rw [hchildren, hcase.2.1, hnil, hbooks, hcase.2.2]
      rfl
    | inr hcase =>
      obtain ⟨plan, result, hsome, habsorbs, _⟩ := hcase
      rw [hsome] at hahead hnone
      obtain ⟨plans, results, hplans, hresults, habsorb⟩ := ih hmore hrest hunheard.2 (by simpa using hnone)
      have hall : (s.planAhead generation memory slot (left + 1) w.desk).1 = .ok (plan :: plans) := by
        rw [Setup.planAhead, Prog.bind_ok hahead]
        have hmore : s.planAhead generation memory (slot + 1) left w₁.desk =
            (.ok plans, (s.planAhead generation memory (slot + 1) left w₁.desk).2) := Prod.ext hplans rfl
        exact congrArg Prod.fst (Prog.bind_ok hmore)
      refine ⟨plan :: plans, result :: results, hall, List.Forall₂.cons habsorbs.executed hresults, ?_⟩
      have hfirst : onBooks (s.absorbProposal generation plan result) ⟨d, w.books⟩ = (.ok (child, false), ⟨d, w₁.books⟩) := by
        rw [onBooks, habsorbs.absorbed]
      rw [List.zip_cons_cons, Setup.absorbAll, Prog.bind_ok hfirst, hchildren]
      cases child with
      | none => exact Prog.bind_ok habsorb
      | some child => exact Prog.bind_ok habsorb

theorem absorbAll_returns {pairs : List (ProposalPlan × ProposeResult)}
    (h : s.absorbAll generation ((plan, result) :: pairs) w = (.ok children, w')) :
    ∃ absorbed w₁ w₂ more, s.absorbProposal generation plan result w.books = (.ok absorbed, w₁.books) ∧ w₁.desk = w.desk ∧
      (absorbed.2 = false ∧ w₂ = w₁ ∨ absorbed = (none, true) ∧ Grows w₁.books w₂.books) ∧
      s.absorbAll generation pairs w₂ = (.ok more, w') := by
  obtain ⟨absorbed, w₁, habsorbed, hrest⟩ := Prog.bind_returns h
  obtain ⟨child, w₂, hchild, hrest⟩ := Prog.bind_returns hrest
  obtain ⟨more, w₃, hmore, hrest⟩ := Prog.bind_returns hrest
  cases hrest
  obtain ⟨habsorb, hdesk⟩ := onBooks_returns habsorbed
  refine ⟨absorbed, w₁, w₂, more, habsorb, hdesk, ?_, hmore⟩
  cases absorbProposal_returns habsorb with
  | inr hrejected =>
    rw [hrejected.1] at hchild
    exact Or.inr ⟨hrejected.1, proposeFrom_grows hchild⟩
  | inl hsettled =>
    obtain ⟨found, retry⟩ := absorbed
    have hretry : retry = false := hsettled.1
    rw [hretry] at hchild
    refine Or.inl ⟨hretry, ?_⟩
    cases found with
    | none =>
      cases hchild
      rfl
    | some child =>
      cases hchild
      rfl

theorem absorbAll_grows {pairs : List (ProposalPlan × ProposeResult)}
    (h : s.absorbAll generation pairs w = (.ok children, w')) : Grows w.books w'.books := by
  induction pairs generalizing w children with
  | nil =>
    cases h
    exact (Clean.refl _).grows
  | cons pair pairs ih =>
    obtain ⟨absorbed, w₁, w₂, more, habsorb, _, hcases, hmore⟩ := absorbAll_returns h
    have hgrows := absorbProposal_grows habsorb
    cases hcases with
    | inl hdone =>
      have hlater := ih hmore
      rw [hdone.2] at hlater
      exact hgrows.trans hlater
    | inr hretry => exact (hgrows.trans hretry.2).trans (ih hmore)

theorem absorbAll_taken {pairs : List (ProposalPlan × ProposeResult)}
    (h : s.absorbAll generation pairs w = (.ok children, w')) (hclean : Clean w.books w'.books) :
    taken w'.books = taken w.books + pairs.length ∧ w'.desk = w.desk := by
  induction pairs generalizing w children with
  | nil =>
    cases h
    exact ⟨rfl, rfl⟩
  | cons pair pairs ih =>
    obtain ⟨absorbed, w₁, w₂, more, habsorb, hdesk, hcases, hmore⟩ := absorbAll_returns h
    have hlater := absorbAll_grows hmore
    cases absorbProposal_returns habsorb with
    | inr hrejected =>
      have hgrows : Grows w₁.books w'.books := by
        cases hcases with
        | inl hdone =>
          rw [hrejected.1] at hdone
          cases hdone.1
        | inr hretry => exact hretry.2.trans hlater
      exact absurd (hclean.split hrejected.2.grows hgrows).1 hrejected.2.not_clean
    | inl hsettled =>
      have hsame : w₂ = w₁ := by
        cases hcases with
        | inl hdone => exact hdone.2
        | inr hretry =>
          rw [hretry.1] at hsettled
          cases hsettled.1
      rw [hsame] at hmore hlater
      obtain ⟨htaken, hstay⟩ := ih hmore (hclean.split hsettled.2.clean.grows hlater).2
      refine ⟨?_, hstay.trans hdesk⟩
      rw [htaken, hsettled.2.taken, List.length_cons]
      omega

theorem proposeMany_serial (order : List ℕ) :
    s.proposeMany 1 generation count order w = s.proposeEach generation 0 count w := by
  rw [Setup.proposeMany, if_pos]
  omega

theorem length_visits (generation slot left : ℕ) (w : World σ μ γ β) : (s.visits generation slot left w).length ≤ left := by
  induction left generalizing slot w with
  | zero => exact le_refl 0
  | succ left ih =>
    rw [Setup.visits]
    split
    · exact Nat.zero_le _
    · split
      · simp
      · exact Nat.succ_le_succ (ih _ _)

theorem plansEnd_of_short {visits : List (Visit σ μ γ β)} (h : visits.length ≤ 1) : PlansEnd visits := by
  cases visits with
  | nil => exact ⟨by simp, by simp⟩
  | cons v rest =>
    have hrest : rest = [] := List.length_eq_zero_iff.mp (by simpa using h)
    rw [hrest]
    cases hplan : v.plan with
    | none => exact ⟨by simp [hplan], by simp [hplan]⟩
    | some plan => exact ⟨by simp [hplan], by simp [hplan]⟩

theorem desk_of_plansEnd {visits : List (Visit σ μ γ β)} (h : PlansEnd visits) {d d' : Desk σ}
    (hdesk : d' = (visits.getLast?.map Visit.desk).getD d) :
    ((visits.dropWhile (·.plan.isSome)).head?.map Visit.desk).getD d' = d' := by
  cases hdrop : visits.dropWhile (·.plan.isSome) with
  | nil => rfl
  | cons first behind =>
    have hsplit := List.takeWhile_append_dropWhile (p := fun v : Visit σ μ γ β => v.plan.isSome) (l := visits)
    rw [hdrop] at hsplit
    have hlast : visits.getLast? = (first :: behind).getLast? := by
      rw [← hsplit, List.getLast?_append_of_ne_nil _ (List.cons_ne_nil _ _)]
    obtain ⟨last, hsome⟩ : ∃ last, (first :: behind).getLast? = some last :=
      ⟨_, List.getLast?_eq_some_getLast (List.cons_ne_nil _ _)⟩
    have hsame := h.desk first (by simp [hdrop]) last (by rw [hdrop]; exact hsome)
    rw [hlast, hsome] at hdesk
    rw [hdesk]
    exact hsame.symm

theorem plansEnd_of_counts {visits : List (Visit σ μ γ β)} {d d' : Desk σ}
    (hcount : visits.countP (·.plan.isSome) = (visits.takeWhile (·.plan.isSome)).length)
    (hstay : d' = ((visits.dropWhile (·.plan.isSome)).head?.map Visit.desk).getD d')
    (hdesk : d' = (visits.getLast?.map Visit.desk).getD d) : PlansEnd visits := by
  have hsplit := List.takeWhile_append_dropWhile (p := fun v : Visit σ μ γ β => v.plan.isSome) (l := visits)
  constructor
  · have htake : (visits.takeWhile (·.plan.isSome)).countP (·.plan.isSome) = (visits.takeWhile (·.plan.isSome)).length :=
      List.countP_eq_length.mpr fun v hv =>
        List.mem_takeWhile_imp (p := fun v : Visit σ μ γ β => v.plan.isSome) hv
    have hall : visits.countP (·.plan.isSome) = (visits.takeWhile (·.plan.isSome)).length +
        (visits.dropWhile (·.plan.isSome)).countP (·.plan.isSome) := by
      conv_lhs => rw [← hsplit, List.countP_append, htake]
    have hzero : (visits.dropWhile (·.plan.isSome)).countP (·.plan.isSome) = 0 := by omega
    intro v hv
    have hnot := List.countP_eq_zero.mp hzero v hv
    simpa using hnot
  · intro first hfirst last hlast
    have hne : visits.dropWhile (·.plan.isSome) ≠ [] := by
      intro hnil
      rw [hnil] at hfirst
      cases hfirst
    have hend : visits.getLast? = some last := by
      rw [← hsplit, List.getLast?_append_of_ne_nil _ hne]
      exact hlast
    rw [show (visits.dropWhile (·.plan.isSome)).head? = some first from hfirst] at hstay
    rw [hend] at hdesk
    exact hdesk.symm.trans hstay

/-- At once and one by one come to the same exactly when the plans end for good at the first slot without one. -/
theorem as_serial_iff (s : Setup σ μ γ β) (proposalConcurrency generation count : ℕ) (w : World σ μ γ β)
    (hconcurrent : 1 < proposalConcurrency) (hattempts : 0 < s.maxNoveltyAttempts)
    (hrejected : NothingRejected s proposalConcurrency generation count w)
    (hreturns : (s.proposeMany 1 generation count [] w).1.isOk = true)
    (hunheard : Unheard s generation w.books.memory (s.visits generation 0 count w)) :
    AsSerial s proposalConcurrency generation count w ↔ PlansEnd (s.visits generation 0 count w) := by
  obtain ⟨children, w', hserial⟩ : ∃ children w', s.proposeEach generation 0 count w = (.ok children, w') := by
    rw [proposeMany_serial] at hreturns
    cases hrun : s.proposeEach generation 0 count w with
    | mk answer w' =>
      rw [hrun] at hreturns
      cases answer with
      | ok children => exact ⟨children, w', rfl⟩
      | error e => cases hreturns
  have hclean : Clean w.books w'.books := by
    have hone := hrejected 1 (by simp) (List.range count) (List.Perm.refl _)
    rw [proposeMany_serial, hserial] at hone
    exact hone
  obtain ⟨plans, hahead, hlength⟩ := planAhead_visits hattempts hserial hclean hunheard
  obtain ⟨hdesk, htaken⟩ := visits_end hattempts hserial hclean
  by_cases hsmall : max 1 (min proposalConcurrency count) = 1
  · have hends := plansEnd_of_short ((length_visits (s := s) generation 0 count w).trans (show count ≤ 1 by omega))
    refine ⟨fun _ => hends, fun _ order _ => ?_⟩
    rw [proposeMany_serial, Setup.proposeMany, if_pos hsmall]
  · have hmany : s.proposeMany proposalConcurrency generation count (List.range count) w =
        (ofExcept (gather (plans.map fun plan => some (s.executePlan plan))) >>= fun results =>
          s.absorbAll generation (plans.zip results))
          ⟨(((s.visits generation 0 count w).dropWhile (·.plan.isSome)).head?.map Visit.desk).getD w'.desk, w.books⟩ := by
      have hplans : onDesk (fun memory => s.planAhead generation memory 0 count) w = (.ok plans, ⟨
          (((s.visits generation 0 count w).dropWhile (·.plan.isSome)).head?.map Visit.desk).getD w'.desk, w.books⟩) := by
        rw [onDesk, hahead]
      rw [← answered_eq (length_planAhead hahead) (List.Perm.refl _), Setup.proposeMany, if_neg hsmall]
      exact Prog.bind_ok hplans
    constructor
    · intro h
      have hsame := h (List.range count) (List.Perm.refl _)
      rw [hmany, proposeMany_serial, hserial] at hsame
      obtain ⟨results, w₁, hresults, habsorb⟩ := Prog.bind_returns hsame
      obtain ⟨hgather, hw₁⟩ := ofExcept_returns hresults
      rw [hw₁] at habsorb
      obtain ⟨hcount, hstay⟩ := absorbAll_taken habsorb hclean
      have hresultsLength := length_gather hgather
      rw [List.length_map] at hresultsLength
      rw [List.length_zip, hresultsLength, Nat.min_self, hlength] at hcount
      exact plansEnd_of_counts (by rw [← Nat.add_left_cancel_iff (n := taken w.books), ← htaken, ← hcount]) hstay hdesk
    · intro h order horder
      obtain ⟨plans₂, results, hplans₂, hresults, habsorb⟩ :=
        absorbAll_visits hattempts hserial hclean hunheard h.none w'.desk
      rw [hahead] at hplans₂
      injection hplans₂ with hplans₂
      rw [proposeMany_order horder, hmany, proposeMany_serial, hserial, hplans₂, gather_answers hresults,
        desk_of_plansEnd h hdesk]
      exact habsorb

end

/-- `SeedOnlySelector` chooses, every proposer answers with one program, and nothing checks it. -/
def seedOnlyLoop : Setup Unit Unit Unit Unit where
  planning :=
    { cfg := { strategy := .seedOnly, numIslands := 2, sigmoid := fun _ => 1, power := fun _ => 1 }
      directives := []
      evalBatchSize := 2 }
  contents _ := ⟨⟨"text".toList, "old".toList⟩, "seed".toList, [], []⟩
  mainText := Workspace.code
  withMainText ws code := { ws with code }
  noveltyText _ code := code
  lane _ _ := pure "default".toList
  random := pure 0
  sample _ island := pure (firstSeed island)
  inspirations _ _ := pure {}
  sampleOperator _ := pure "full".toList
  build _ _ _ _ := pure ("system".toList, "user".toList)
  buildRepair _ _ _ _ := pure ("system".toList, "user".toList)
  propose _ _ _ _ _ := .ok ⟨some ⟨"new".toList, "title".toList, [], [], none⟩, 0, 1, none, none, SearchLoop.merged_reason _⟩
  charge _ := pure ()
  heard _ _ := ()

def seedOf (id : String) (islandIdx : ℕ) (quarantined : Bool) : Candidate where
  id := id.toList
  generation := 0
  islandIdx
  report := some ⟨0, true⟩
  quarantined

def worldOf (pop : List Candidate) : World Unit Unit Unit Unit := ⟨⟨pop, ()⟩, ⟨(), {}, (), [], (), 0⟩⟩

def bothSeeds : World Unit Unit Unit Unit := worldOf [seedOf "first" 0 false, seedOf "second" 1 false]

def childOfFirst : Candidate where
  id := "child".toList
  generation := 1
  parentId := some "first".toList
  report := some ⟨1, true⟩

def seedQuarantined : World Unit Unit Unit Unit :=
  worldOf [seedOf "first" 0 true, seedOf "second" 1 false, childOfFirst]

theorem nothingRejected_of_silent {σ μ γ β : Type} {s : Setup σ μ γ β} {proposalConcurrency generation count : ℕ} {w : World σ μ γ β}
    (hone : (s.proposeMany 1 generation count (List.range count) w).2.books.events = w.books.events)
    (hmany : (s.proposeMany proposalConcurrency generation count (List.range count) w).2.books.events = w.books.events) :
    NothingRejected s proposalConcurrency generation count w := by
  intro concurrency hconcurrency order horder
  rw [proposeMany_order horder]
  have hsilent : (s.proposeMany concurrency generation count (List.range count) w).2.books.events = w.books.events := by
    cases List.mem_cons.mp hconcurrency with
    | inl h => rw [h, hone]
    | inr h => rw [List.mem_singleton.mp h, hmany]
  exact ⟨[], by rw [hsilent, List.append_nil], by simp⟩

theorem as_serial_iff_both_seeds : AsSerial seedOnlyLoop 2 0 2 bothSeeds := by
  have hone : (seedOnlyLoop.proposeMany 1 0 2 (List.range 2) bothSeeds).2.books.events.length = 0 := by decide +kernel
  have hmany : (seedOnlyLoop.proposeMany 2 0 2 (List.range 2) bothSeeds).2.books.events.length = 0 := by decide +kernel
  have hrejected : NothingRejected seedOnlyLoop 2 0 2 bothSeeds :=
    nothingRejected_of_silent (List.length_eq_zero_iff.mp hone) (List.length_eq_zero_iff.mp hmany)
  have hplanned : (seedOnlyLoop.visits 0 0 2 bothSeeds).dropWhile (·.plan.isSome) = [] :=
    List.length_eq_zero_iff.mp (by decide +kernel)
  refine (as_serial_iff seedOnlyLoop 2 0 2 bothSeeds (by decide) (by decide) hrejected (by decide +kernel) ?_).mpr ?_
  · intro v _
    rfl
  · exact ⟨by simp [hplanned], by simp [hplanned]⟩

theorem islandView_quarantined : islandView seedQuarantined.desk.pop 0 = ⟨0, [seedOf "first" 0 true, childOfFirst]⟩ := by
  have hrows : seedQuarantined.desk.pop.filter (fun c => c.islandIdx == 0 && c.report.isSome) = [seedOf "first" 0 true, childOfFirst] := rfl
  rw [islandView, hrows, List.mergeSort_of_pairwise]
  simp [seedOf, childOfFirst]

theorem planProposal_seedless (memory : Unit) :
    seedOnlyLoop.planProposal 0 0 memory seedQuarantined.desk = (.ok none, seedQuarantined.desk) := by
  have hpick : seedOnlyLoop.planning.pickIsland seedQuarantined.desk.pop 0 0 = some (islandView seedQuarantined.desk.pop 0) := by
    have hpassed : (islandView seedQuarantined.desk.pop 0).passedCandidates ≠ [] := by
      rw [islandView_quarantined]
      decide
    unfold Planning.pickIsland
    exact List.find?_cons_of_pos (by simpa using hpassed)
  have hseed : firstSeed (islandView seedQuarantined.desk.pop 0) = none := by
    rw [islandView_quarantined]
    decide
  have hread : (Prog.get : Prog (Desk Unit) RunFault (Desk Unit)) seedQuarantined.desk =
      (.ok seedQuarantined.desk, seedQuarantined.desk) := rfl
  have hparent : onDraws (seedOnlyLoop.sample seedQuarantined.desk.pop (islandView seedQuarantined.desk.pop 0))
      seedQuarantined.desk = (.ok none, seedQuarantined.desk) := by
    rw [← hseed]
    rfl
  have hlane : onDraws (seedOnlyLoop.lane 0 seedQuarantined.desk.pop) seedQuarantined.desk =
      (.ok "default".toList, seedQuarantined.desk) := rfl
  have hmerge : seedOnlyLoop.offerMerge (islandView seedQuarantined.desk.pop 0) seedQuarantined.desk =
      (.ok none, seedQuarantined.desk) := rfl
  have hfailed : seedOnlyLoop.throttled none seedQuarantined.desk = (.ok none, seedQuarantined.desk) := rfl
  refine (Prog.bind_ok hread).trans ?_
  rw [hpick]
  exact (Prog.bind_ok hlane).trans ((Prog.bind_ok hmerge).trans ((Prog.bind_ok hfailed).trans (Prog.bind_ok hparent)))

/-- An island without a seed ends the batch for the islands behind it; one by one they have their turn. -/
theorem seedless_island_ends_batch : ¬ ∀ (σ μ γ β : Type) (s : Setup σ μ γ β) (proposalConcurrency generation count : ℕ)
    (w : World σ μ γ β), 1 < proposalConcurrency → NothingRejected s proposalConcurrency generation count w →
      AsSerial s proposalConcurrency generation count w := by
  intro hclaim
  have hahead : onDesk (fun memory => seedOnlyLoop.planAhead 0 memory 0 2) seedQuarantined = (.ok [], seedQuarantined) := by
    have hplans : seedOnlyLoop.planAhead 0 () 0 2 seedQuarantined.desk = (.ok [], seedQuarantined.desk) :=
      Prog.bind_ok (planProposal_seedless ())
    rw [onDesk, show seedQuarantined.books.memory = () from rfl, hplans]
  have htogether : seedOnlyLoop.proposeMany 2 0 2 (List.range 2) seedQuarantined = (.ok [], seedQuarantined) := by
    rw [Setup.proposeMany, if_neg (by decide)]
    exact Prog.bind_ok hahead
  have hslot : seedOnlyLoop.proposeSlot 0 0 seedQuarantined = (.ok none, seedQuarantined) := by
    have hplan : onDesk (seedOnlyLoop.planProposal 0 0) seedQuarantined = (.ok none, seedQuarantined) := by
      rw [onDesk, planProposal_seedless]
    exact Prog.bind_ok hplan
  have hserial : seedOnlyLoop.proposeMany 1 0 2 (List.range 2) seedQuarantined =
      seedOnlyLoop.proposeEach 0 1 1 seedQuarantined := by
    rw [proposeMany_serial]
    exact (Prog.bind_ok hslot).trans (congrFun (Prog.bind_pure_self _) _)
  have hone : (seedOnlyLoop.proposeEach 0 1 1 seedQuarantined).1.toOption.map List.length = some 1 := by decide +kernel
  have hevents : (seedOnlyLoop.proposeEach 0 1 1 seedQuarantined).2.books.events.length = 0 := by decide +kernel
  have hrejected : NothingRejected seedOnlyLoop 2 0 2 seedQuarantined := by
    apply nothingRejected_of_silent
    · rw [hserial]
      exact List.length_eq_zero_iff.mp hevents
    · rw [htogether]
  have hsame := hclaim _ _ _ _ seedOnlyLoop 2 0 2 seedQuarantined (by decide) hrejected _ (List.Perm.refl _)
  rw [htogether, hserial] at hsame
  rw [← hsame] at hone
  cases hone

end EvoHarness.Core.Population.Proposing
