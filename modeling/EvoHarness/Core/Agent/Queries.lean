import EvoHarness.Core.Agent.Heard

/-! The queries of a run: the world each is made in, the budget note at the tail of its messages,
and what the estimator was asked before it. -/
namespace EvoHarness.Core.Agent
open PyText Hoare

def budgetWarnTurns : ℕ := 12

structure BudgetNote where
  turn : ℕ
  maxTurns : ℕ
  left : ℕ
  minutesLeft : ℚ≥0

def budgetNote (limits : AgentSessionLimits) (w : World) : BudgetNote where
  turn := w.session.lifetimeTurns + 1
  maxTurns := limits.maxTurns
  left := limits.maxTurns - w.session.lifetimeTurns
  minutesLeft := (w.run.deadline - w.now) / 60

def BudgetNote.tail (n : BudgetNote) : Text :=
  if n.left ≤ budgetWarnTurns then
    (" STOP EXPLORING. Run your verification now and write the final TITLE/SUMMARY. A session cut off " ++
    "mid-edit produces nothing at all, which scores worse than a small change that landed.").toList
  else
    " Reserve about ".toList ++ decimal budgetWarnTurns ++
      " turns at the end for verification and the final TITLE/SUMMARY.".toList

def BudgetNote.text (whole : ℚ≥0 → Text) (n : BudgetNote) : Text :=
  "[budget] turn ".toList ++ decimal n.turn ++ " of ".toList ++ decimal n.maxTurns ++ "; ".toList ++ decimal n.left ++
    " left, ".toList ++ whole n.minutesLeft ++ " wall-clock minutes left.".toList ++ n.tail

/-- `_messages_with_budget`; the note does not join the session. -/
def messagesWithBudget (whole : ℚ≥0 → Text) (limits : AgentSessionLimits) (w : World) : List LLMMessage :=
  w.session.messages ++ [.user ((budgetNote limits w).text whole)]

section
variable (b : NativeToolAgentBackend) (env : ℕ → Reply) (limits : AgentSessionLimits)

structure Asked where
  start : World
  world : World

def queryAsked (start w : World) : List Asked :=
  let asked := (clock env w).2
  if w.run.deadline ≤ asked.now then [] else [⟨start, asked⟩]

def turnAsked (w : World) : List Asked :=
  match admission b env limits w with
  | (.ok none, w') => queryAsked env w w'
  | _ => []

def roundsAsked : ℕ → World → List Asked
  | 0, _ => []
  | n + 1, w => turnAsked b env limits w ++
      match turn b env limits w with
      | (.ok none, w') => roundsAsked n w'
      | _ => []

def sessionAsked (opened : AgentEventKind) (fuel : ℕ) (w : World) : List Asked :=
  match recordEvent env opened none none [] w with
  | (.ok _, w') => if w'.run.sinkError = none then roundsAsked b env limits fuel w' else []
  | _ => []

def Host.queries (host : Host) (request : AgentSessionRequest) (fuel : ℕ) : List Asked :=
  match openSession b host.sessions request (env host.asked).isDir (env (host.asked + 1)).freshId with
  | .error _ => []
  | .ok s => sessionAsked b env request.limits (openedEvent request) fuel (startWorld env host request s)

def Asked.call (a : Asked) : ClientCall := (env a.world.asked).answer.call

variable {b env limits}

theorem queryHeard_eq (start w : World) : queryHeard env w = (queryAsked env start w).map (Asked.call env) := by
  unfold queryHeard queryAsked
  dsimp only
  split <;> rfl

theorem turnHeard_eq (w : World) : turnHeard b env limits w = (turnAsked b env limits w).map (Asked.call env) := by
  unfold turnHeard turnAsked
  cases admission b env limits w with
  | mk r w' =>
    cases r with
    | error e => rfl
    | ok admitted =>
      cases admitted with
      | some ended => rfl
      | none => exact queryHeard_eq w w'

theorem roundsHeard_eq (fuel : ℕ) (w : World) :
    roundsHeard b env limits fuel w = (roundsAsked b env limits fuel w).map (Asked.call env) := by
  induction fuel generalizing w with
  | zero => rfl
  | succ n ih =>
    rw [roundsHeard, roundsAsked, List.map_append, turnHeard_eq]
    congr 1
    cases turn b env limits w with
    | mk r w' =>
      cases r with
      | error e => rfl
      | ok again =>
        cases again with
        | some ended => rfl
        | none => exact ih w'

theorem sessionHeard_eq (opened : AgentEventKind) (fuel : ℕ) (w : World) :
    sessionHeard b env limits opened fuel w = (sessionAsked b env limits opened fuel w).map (Asked.call env) := by
  unfold sessionHeard sessionAsked
  cases recordEvent env opened none none [] w with
  | mk r w' =>
    cases r with
    | error e => rfl
    | ok _ =>
      dsimp only
      split
      · exact roundsHeard_eq fuel w'
      · rfl

theorem Host.heard_eq (host : Host) (request : AgentSessionRequest) (fuel : ℕ) :
    host.heard b env request fuel = (host.queries b env request fuel).map (Asked.call env) := by
  unfold Host.heard Host.queries
  cases openSession b host.sessions request (env host.asked).isDir (env (host.asked + 1)).freshId with
  | error e => rfl
  | ok s => exact sessionHeard_eq _ _ _

theorem mem_turnAsked {w : World} {a : Asked} (h : a ∈ turnAsked b env limits w) :
    ∃ w', admission b env limits w = (.ok none, w') ∧ a = ⟨w, (clock env w').2⟩ := by
  unfold turnAsked at h
  split at h
  · next w' hadmit =>
    unfold queryAsked at h
    dsimp only at h
    split at h
    · simp at h
    · exact ⟨w', hadmit, List.mem_singleton.mp h⟩
  · simp at h

variable {deadline : ℚ≥0}

theorem turnAsked_mayAsk {n : ℕ} {w : World} (hw : Between b limits deadline 0 n w.ink) :
    ∀ a ∈ turnAsked b env limits w, MayAsk b limits deadline n a.world.ink := by
  intro a ha
  obtain ⟨w', hasked, rfl⟩ := mem_turnAsked ha
  have h := admission_holds env n w hw
  rw [hasked] at h
  exact h

theorem roundsAsked_mayAsk {n : ℕ} (fuel : ℕ) {w : World} (hw : Between b limits deadline 0 n w.ink) :
    ∀ a ∈ roundsAsked b env limits fuel w, ∃ m, MayAsk b limits deadline m a.world.ink := by
  induction fuel generalizing n w with
  | zero => simp [roundsAsked]
  | succ fuel ih =>
    intro a ha
    rw [roundsAsked] at ha
    cases List.mem_append.mp ha with
    | inl hnow => exact ⟨n, turnAsked_mayAsk hw a hnow⟩
    | inr hlater =>
      split at hlater
      · next w' hturn =>
        have h := turn_holds env n w hw
        rw [hturn] at h
        exact ih h a hlater
      · simp at hlater

theorem sessionAsked_mayAsk {opened : AgentEventKind} {fuel : ℕ} {w : World}
    (hw : Between b limits deadline 0 0 w.ink) :
    ∀ a ∈ sessionAsked b env limits opened fuel w, ∃ m, MayAsk b limits deadline m a.world.ink := by
  intro a ha
  unfold sessionAsked at ha
  cases hr : recordEvent env opened none none [] w with
  | mk r w' =>
    rw [hr] at ha
    cases r with
    | error e => simp at ha
    | ok _ =>
      dsimp only at ha
      split at ha
      · have hquiet := recordEvent_quiet env opened none none [] w
        rw [hr] at hquiet
        exact roundsAsked_mayAsk fuel (hquiet ▸ hw) a ha
      · simp at ha

/-- At every query the books of the run are in order and its turn limit is not reached. -/
theorem Host.queries_mayAsk (host : Host) (request : AgentSessionRequest) (fuel : ℕ) :
    ∀ a ∈ host.queries b env request fuel, ∃ n deadline, MayAsk b request.limits deadline n a.world.ink := by
  intro a ha
  unfold Host.queries at ha
  split at ha
  · simp at ha
  · next s _ =>
    obtain ⟨n, hn⟩ := sessionAsked_mayAsk (startWorld_between env host request s) a ha
    exact ⟨n, _, hn⟩

def World.answered (w : World) (k : ℕ) : World :=
  { w with session := { w.session with lifetimeTurns := w.session.lifetimeTurns + k } }

/-- `usage.turns >= request.limits.max_turns` does not stop the run. -/
def UnderTurnLimit (limits : AgentSessionLimits) (w : World) : Prop :=
  w.session.lifetimeTurns - w.run.usageBefore.turns < limits.maxTurns

/-- As many responses as the note says, this one included, still pass the turn limit, and they are
those whose number the note counts up to its total. -/
structure BudgetNote.Truthful (n : BudgetNote) (limits : AgentSessionLimits) (w : World) : Prop where
  left : ∀ k, UnderTurnLimit limits (w.answered k) ↔ k < n.left
  total : ∀ k, UnderTurnLimit limits (w.answered k) ↔ n.turn + k ≤ n.maxTurns

theorem budgetNote_truthful_iff {n : ℕ} {w : World} (h : MayAsk b limits deadline n w.ink) :
    (budgetNote limits w).Truthful limits w ↔ responsesIn w.log = w.session.lifetimeTurns := by
  have hbooks : w.session.lifetimeTurns = w.run.usageBefore.turns + responsesIn w.log := h.1.books.turns
  have hunder : responsesIn w.log < limits.maxTurns := h.2.1
  constructor
  · intro htruth
    have hleft := htruth.left (limits.maxTurns - 1 - responsesIn w.log)
    simp only [UnderTurnLimit, World.answered, budgetNote] at hleft
    omega
  · intro hall
    constructor
    · intro k
      simp only [UnderTurnLimit, World.answered, budgetNote]
      omega
    · intro k
      simp only [UnderTurnLimit, World.answered, budgetNote]
      omega

end
end EvoHarness.Core.Agent
