import EvoHarness.Core.Agent.Dsh
import EvoHarness.Core.Agent.EventOrder

/-! The order of the events that the backend over the harness gives to sinks. Its failures do not take
a number of their own. -/
namespace EvoHarness.Core.Agent
open PyText Hoare Runs

namespace Dsh

def counter (sessions : Sessions) (id : Text) : ℕ := ((sessions id).map (·.sequence)).getD 0

inductive Call where
  | run (request : AgentSessionRequest) (reply : Reply)
  | release (id : Text)

def fails (sessions : Sessions) (request : AgentSessionRequest) (reply : Reply) : Bool :=
  match sessionFor sessions (sessionIdOf request reply) request reply with
  | .error (.exception _) => true
  | .error (.interrupt _) => false
  | .ok live =>
    match reply.answer (composePrompt request (decide (0 < live.rounds))) with
    | .error (.exception _) => true
    | _ => false

def returns (sessions : Sessions) (request : AgentSessionRequest) (reply : Reply) : Bool :=
  match sessionFor sessions (sessionIdOf request reply) request reply with
  | .error _ => false
  | .ok live => (reply.answer (composePrompt request (decide (0 < live.rounds)))).isOk

/-- Events can reach a sink: there is one, and the id is one that events may carry. -/
def heard (request : AgentSessionRequest) (reply : Reply) : Bool :=
  request.hasSink && !isBlank (sessionIdOf request reply)

section
variable (spec : DshRuntimeSpec) (py : PyData.Builtins)

def step (life : Life Sessions) : Call → Option (Life Sessions)
  | .run request reply =>
    let ended := spec.run py life.backend request reply
    some ⟨ended.sessions, life.delivered ++ ended.delivered⟩
  | .release id => some ⟨releaseSession life.backend id, life.forget id⟩

end

/-- A run that fails with a sink is the first to give it anything of the session. A run that returns
with a sink is the first to do so, or numbers of the session have been taken before. -/
def Regular (life : Life Sessions) : Call → Prop
  | .run request reply => heard request reply = true →
      (fails life.backend request reply = true → life.eventsOf (sessionIdOf request reply) = []) ∧
      (returns life.backend request reply = true → life.eventsOf (sessionIdOf request reply) = [] ∨
        0 < counter life.backend (sessionIdOf request reply))
  | .release _ => True

section
variable {id : Text} {request : AgentSessionRequest} {reply : Reply}

/-- `n` events took the next numbers of the session, and the sink was given them if there is one. -/
def Took (id : Text) (request : AgentSessionRequest) (n : ℕ) (t t' : Turn) : Prop :=
  t'.live.sequence = t.live.sequence + n ∧ ∃ new, t'.delivered = t.delivered ++ new ∧
    new.map AgentEvent.stamp = if request.hasSink = true then stampsFrom id t.live.sequence n else []

theorem Took.refl (t : Turn) : Took id request 0 t t := by
  refine ⟨rfl, [], (List.append_nil _).symm, ?_⟩
  cases request.hasSink <;> rfl

theorem Took.trans {m n : ℕ} {t u v : Turn} (htu : Took id request m t u) (huv : Took id request n u v) :
    Took id request (m + n) t v := by
  obtain ⟨hm, first, hfirst, hstamps⟩ := htu
  obtain ⟨hn, second, hsecond, hstamps'⟩ := huv
  refine ⟨by omega, first ++ second, ?_, ?_⟩
  · rw [hsecond, hfirst, List.append_assoc]
  · rw [List.map_append, hstamps, hstamps', hm]
    cases request.hasSink with
    | true => exact stampsFrom_append id _ m n
    | false => rfl

theorem deliver_turn (event : AgentEvent) (t : Turn) :
    (deliver request reply event t).2 =
      { t with delivered := t.delivered ++ if request.hasSink = true then [event] else [] } := by
  unfold deliver
  cases request.hasSink with
  | false => exact congrArg (fun d => { t with delivered := d }) (List.append_nil _).symm
  | true =>
    rw [if_neg (by decide), Prog.bind_ok (Prog.get_run (w := t)), Prog.bind_ok (Prog.modify_run _)]
    cases reply.emitError t.delivered.length <;> rfl

theorem checkedEvent_ok {e event : AgentEvent} (h : checkedEvent e = .ok event) : event = e := by
  unfold checkedEvent at h
  split at h
  · exact nomatch h
  · split at h
    · exact nomatch h
    · split at h
      · exact nomatch h
      · exact (Except.ok.inj h).symm

theorem add_checked {roundIndex : ℕ} {d : Draft} {t : Turn} {event : AgentEvent}
    (h : checkedEvent ⟨id, roundIndex, t.live.sequence, d.kind, d.turn, d.callId, d.toolName, d.content⟩ = .ok event) :
    Took id request 1 t (add id request reply roundIndex d t).2 := by
  unfold add
  rw [Prog.bind_ok (Prog.get_run (w := t)), h, Prog.ofExcept_bind rfl, Prog.bind_ok (Prog.modify_run _), deliver_turn]
  refine ⟨rfl, _, rfl, ?_⟩
  rw [checkedEvent_ok h]
  cases request.hasSink <;> rfl

theorem add_took (roundIndex : ℕ) (d : Draft) (t : Turn) :
    ∃ n, Took id request n t (add id request reply roundIndex d t).2 := by
  cases hc : checkedEvent ⟨id, roundIndex, t.live.sequence, d.kind, d.turn, d.callId, d.toolName, d.content⟩ with
  | ok event => exact ⟨1, add_checked hc⟩
  | error e =>
    unfold add
    rw [Prog.bind_ok (Prog.get_run (w := t)), hc]
    exact ⟨0, Took.refl t⟩

theorem add_blank (request : AgentSessionRequest) (reply : Reply) (roundIndex : ℕ) (d : Draft) (h : isBlank id = true)
    (t : Turn) :
    ∃ e, add id request reply roundIndex d t = (.error e, t) := by
  have hc : checkedEvent ⟨id, roundIndex, t.live.sequence, d.kind, d.turn, d.callId, d.toolName, d.content⟩ =
      .error (.value "agent event session_id must be non-empty".toList) := if_pos h
  unfold add
  rw [Prog.bind_ok (Prog.get_run (w := t)), hc]
  exact ⟨_, rfl⟩

variable (spec : DshRuntimeSpec) (py : PyData.Builtins)

def normalizeRest (spec : DshRuntimeSpec) (py : PyData.Builtins) (id : Text) (request : AgentSessionRequest)
    (reply : Reply) (roundIndex : ℕ) (r : HarnessResult) : Prog Turn Fault AgentSessionResult := do
  Prog.forEach (r.events.filterMap (translate py)) (add id request reply roundIndex)
  add id request reply roundIndex { kind := .termination }
  let t ← Prog.get
  pure ⟨terminationFor r.finishReason, id, r.finalResponse, spec.model,
    costOf spec (r.events.map fun raw => (tokensOf py raw).1).sum (r.events.map fun raw => (tokensOf py raw).2).sum,
    kindCount .modelResponse (r.events.filterMap (translate py)), kindCount .toolCall (r.events.filterMap (translate py)),
    (r.events.map fun raw => (tokensOf py raw).1).sum, (r.events.map fun raw => (tokensOf py raw).2).sum, t.translated⟩

theorem normalize_eq (resumed : Bool) (r : HarnessResult) (t : Turn) :
    normalize spec py id request reply resumed r t =
      (add id request reply (t.live.rounds - 1) { kind := if resumed = true then .sessionResume else .sessionStart } >>=
        fun _ => normalizeRest spec py id request reply (t.live.rounds - 1) r) t := rfl

theorem normalizeRest_took (reply : Reply) (roundIndex : ℕ) (r : HarnessResult) (t : Turn) :
    ∃ n, Took id request n t (normalizeRest spec py id request reply roundIndex r t).2 := by
  have htrans : ∀ u v w : Turn, (∃ n, Took id request n u v) → (∃ n, Took id request n v w) →
      ∃ n, Took id request n u w := fun u v w huv hvw => by
    obtain ⟨m, hm⟩ := huv
    obtain ⟨n, hn⟩ := hvw
    exact ⟨m + n, hm.trans hn⟩
  have hrefl : ∀ u : Turn, ∃ n, Took id request n u u := fun u => ⟨0, Took.refl u⟩
  have hmoves : Prog.Moves (fun u v => ∃ n, Took id request n u v)
      (normalizeRest spec py id request reply roundIndex r) := by
    refine .bind htrans (.forEach hrefl htrans (fun d => add_took roundIndex d) _) fun _ => ?_
    refine .bind htrans (add_took roundIndex _) fun _ => ?_
    exact .bind htrans (.get hrefl) fun _ => .pure hrefl _
  exact hmoves t

theorem normalize_took (request : AgentSessionRequest) (reply : Reply) (hid : isBlank id = false) (resumed : Bool) (r : HarnessResult) (t : Turn) :
    ∃ n, 1 ≤ n ∧ Took id request n t (normalize spec py id request reply resumed r t).2 := by
  rw [normalize_eq]
  have hfirst : Took id request 1 t (add id request reply (t.live.rounds - 1)
      { kind := if resumed = true then .sessionResume else .sessionStart } t).2 :=
    add_checked (by
      unfold checkedEvent
      rw [if_neg (by rw [hid]; decide), if_neg (by exact fun h => nomatch h), if_neg (by exact fun h => nomatch h)])
  cases ha : add id request reply (t.live.rounds - 1)
      { kind := if resumed = true then .sessionResume else .sessionStart } t with
  | mk outcome u =>
    rw [ha] at hfirst
    cases outcome with
    | error e =>
      rw [Prog.bind_error ha]
      exact ⟨1, le_refl 1, hfirst⟩
    | ok _ =>
      rw [Prog.bind_ok ha]
      obtain ⟨n, hn⟩ := normalizeRest_took spec py reply (t.live.rounds - 1) r u
      exact ⟨1 + n, by omega, hfirst.trans hn⟩

theorem normalize_blank (request : AgentSessionRequest) (reply : Reply) (hid : isBlank id = true) (resumed : Bool) (r : HarnessResult) (t : Turn) :
    (normalize spec py id request reply resumed r t).2 = t := by
  obtain ⟨e, he⟩ := add_blank request reply (t.live.rounds - 1)
    { kind := if resumed = true then .sessionResume else .sessionStart } hid t
  rw [normalize_eq, Prog.bind_error he]

theorem failed_delivers (id : Text) (request : AgentSessionRequest) (reply : Reply) (detail : Text) (roundIndex : ℕ)
    (t : Turn) :
    ∃ new, (failed spec id request reply detail roundIndex t).2.delivered = t.delivered ++ new ∧
      new.map AgentEvent.stamp = if request.hasSink = true ∧ isBlank id = false then [(id, 0)] else [] := by
  unfold failed
  cases hid : isBlank id with
  | true =>
    have hc : checkedEvent { sessionId := id, roundIndex, sequence := 0, kind := .termination, turn := 0, content := detail } =
        .error (.value "agent event session_id must be non-empty".toList) := if_pos hid
    rw [hc]
    refine ⟨[], (List.append_nil _).symm, ?_⟩
    rw [if_neg (fun h => nomatch h.2)]
    rfl
  | false =>
    have hc : checkedEvent { sessionId := id, roundIndex, sequence := 0, kind := .termination, turn := 0, content := detail } =
        .ok { sessionId := id, roundIndex, sequence := 0, kind := .termination, turn := 0, content := detail } := by
      unfold checkedEvent
      rw [if_neg (by rw [hid]; decide), if_neg (by exact fun h => nomatch h), if_neg (by exact fun h => nomatch h)]
    rw [hc, Prog.ofExcept_bind rfl, Prog.bind_pure_snd, deliver_turn]
    refine ⟨_, rfl, ?_⟩
    cases request.hasSink <;> rfl

inductive Went (sessions : Sessions) (request : AgentSessionRequest) (reply : Reply) (ended : Ended) : Prop
  | silent (hnone : ended.delivered = [])
      (hle : counter sessions (sessionIdOf request reply) ≤ counter ended.sessions (sessionIdOf request reply))
      (hheard : heard request reply = true → fails sessions request reply = false ∧ returns sessions request reply = false)
  | failure (hheard : heard request reply = true) (hfails : fails sessions request reply = true)
      (hreturns : returns sessions request reply = false)
      (hle : counter sessions (sessionIdOf request reply) ≤ counter ended.sessions (sessionIdOf request reply))
      (hstamps : ended.delivered.map AgentEvent.stamp = stampsFrom (sessionIdOf request reply) 0 1)
  | round (n : ℕ) (hn : 1 ≤ n) (hheard : heard request reply = true) (hfails : fails sessions request reply = false)
      (hreturns : returns sessions request reply = true)
      (hcounter : counter ended.sessions (sessionIdOf request reply) = counter sessions (sessionIdOf request reply) + n)
      (hstamps : ended.delivered.map AgentEvent.stamp =
        stampsFrom (sessionIdOf request reply) (counter sessions (sessionIdOf request reply)) n)

theorem counter_update (sessions : Sessions) (id other : Text) (live : Option LiveSession) :
    counter (Function.update sessions id live) other =
      if other = id then (live.map (·.sequence)).getD 0 else counter sessions other := by
  unfold counter
  by_cases h : other = id
  · rw [if_pos h, h, Function.update_self]
  · rw [if_neg h, Function.update_of_ne h]

theorem sessionFor_counter {sessions : Sessions} {live : LiveSession}
    (h : sessionFor sessions id request reply = .ok live) : live.sequence = counter sessions id := by
  unfold sessionFor at h
  unfold counter
  cases hs : sessions id with
  | some kept =>
    rw [hs] at h
    dsimp only at h
    split at h
    · exact nomatch h
    · cases h
      rfl
  | none =>
    rw [hs] at h
    dsimp only at h
    split at h
    · exact nomatch h
    · cases h
      rfl

theorem heard_iff : heard request reply = true ↔ request.hasSink = true ∧ isBlank (sessionIdOf request reply) = false := by
  unfold heard
  rw [Bool.and_eq_true, Bool.not_eq_true']

theorem reportFailure_went {sessions kept : Sessions} (detail : Text) (roundIndex : ℕ)
    (hfails : fails sessions request reply = true) (hreturns : returns sessions request reply = false)
    (hle : counter sessions (sessionIdOf request reply) ≤ counter kept (sessionIdOf request reply)) :
    Went sessions request reply (reportFailure spec kept request reply detail roundIndex) := by
  obtain ⟨new, hnew, hstamps⟩ := failed_delivers spec (sessionIdOf request reply) request reply detail roundIndex
    { live := { workdir := [] } }
  have hdelivered : (reportFailure spec kept request reply detail roundIndex).delivered = new := hnew
  by_cases hheard : heard request reply = true
  · rw [if_pos (heard_iff.mp hheard), ← hdelivered] at hstamps
    exact .failure hheard hfails hreturns hle hstamps
  · rw [if_neg (fun h => hheard (heard_iff.mpr h)), ← hdelivered, List.map_eq_nil_iff] at hstamps
    exact .silent hstamps hle fun h => absurd h hheard

theorem run_went (sessions : Sessions) (request : AgentSessionRequest) (reply : Reply) :
    Went sessions request reply (spec.run py sessions request reply) := by
  unfold DshRuntimeSpec.run
  cases hs : sessionFor sessions (sessionIdOf request reply) request reply with
  | error trouble =>
    have hreturns : returns sessions request reply = false := by rw [returns, hs]
    cases trouble with
    | interrupt e =>
      have hfails : fails sessions request reply = false := by rw [fails, hs]
      exact .silent rfl (le_refl _) fun _ => ⟨hfails, hreturns⟩
    | exception detail =>
      have hfails : fails sessions request reply = true := by rw [fails, hs]
      exact reportFailure_went spec detail 0 hfails hreturns (le_refl _)
  | ok live =>
    have hlive : live.sequence = counter sessions (sessionIdOf request reply) := sessionFor_counter hs
    show Went sessions request reply (runRound spec py sessions request reply live)
    unfold runRound
    dsimp only
    cases ha : reply.answer (composePrompt request (decide (0 < live.rounds))) with
    | error trouble =>
      have hreturns : returns sessions request reply = false := by
        rw [returns, hs]
        dsimp only
        rw [ha]
        rfl
      cases trouble with
      | interrupt e =>
        have hfails : fails sessions request reply = false := by
          rw [fails, hs]
          dsimp only
          rw [ha]
        refine .silent rfl ?_ fun _ => ⟨hfails, hreturns⟩
        rw [counter_update, if_pos rfl]
        exact hlive.ge
      | exception detail =>
        have hfails : fails sessions request reply = true := by
          rw [fails, hs]
          dsimp only
          rw [ha]
        refine reportFailure_went spec detail _ hfails hreturns ?_
        rw [counter_update, if_pos rfl]
        exact hlive.ge
    | ok r =>
      have hfails : fails sessions request reply = false := by
        rw [fails, hs]
        dsimp only
        rw [ha]
      have hreturns : returns sessions request reply = true := by
        rw [returns, hs]
        dsimp only
        rw [ha]
        rfl
      dsimp only
      cases hid : isBlank (sessionIdOf request reply) with
      | true =>
        rw [normalize_blank spec py request reply hid]
        refine .silent rfl ?_ fun h => absurd (heard_iff.mp h).2 (by rw [hid]; decide)
        rw [counter_update, if_pos rfl]
        exact hlive.ge
      | false =>
        obtain ⟨n, hn, hsequence, new, hnew, hstamps⟩ := normalize_took spec py request reply hid
          (decide (0 < live.rounds)) r { live := { live with rounds := live.rounds + 1 } }
        have hcounter : (normalize spec py (sessionIdOf request reply) request reply (decide (0 < live.rounds)) r
            { live := { live with rounds := live.rounds + 1 } }).2.live.sequence =
            counter sessions (sessionIdOf request reply) + n := by
          rw [hsequence, ← hlive]
        rw [List.nil_append] at hnew
        cases hsink : request.hasSink with
        | true =>
          rw [if_pos hsink, ← hnew] at hstamps
          refine .round n hn (heard_iff.mpr ⟨hsink, hid⟩) hfails hreturns ?_ ?_
          · rw [counter_update, if_pos rfl]
            exact hcounter
          · rw [← hlive]
            exact hstamps
        | false =>
          rw [if_neg (by rw [hsink]; decide), ← hnew, List.map_eq_nil_iff] at hstamps
          refine .silent hstamps ?_ fun h => absurd (heard_iff.mp h).1 (by rw [hsink]; decide)
          rw [counter_update, if_pos rfl]
          show _ ≤ (normalize spec py _ request reply _ r _).2.live.sequence
          omega

theorem run_elsewhere (sessions : Sessions) {other : Text} (h : other ≠ sessionIdOf request reply) :
    counter (spec.run py sessions request reply).sessions other = counter sessions other := by
  unfold DshRuntimeSpec.run
  split
  · rfl
  · rfl
  · unfold runRound
    dsimp only
    split
    · exact (counter_update _ _ _ _).trans (if_neg h)
    · exact (counter_update _ _ _ _).trans (if_neg h)
    · exact (counter_update _ _ _ _).trans (if_neg h)

/-- What was delivered for a session is numbered below its counter, or it is a failure before any number was taken. -/
def Passed (life : Life Sessions) : Prop := ∀ e ∈ life.delivered, e.sequence < max (counter life.backend e.sessionId) 1

theorem passed_step (life : Life Sessions) (call : Call) (next : Life Sessions) (h : Passed life)
    (hstep : step spec py life call = some next) : Passed next := by
  cases call with
  | run request reply =>
    cases hstep
    have hgrow : ∀ id, counter life.backend id ≤ counter (spec.run py life.backend request reply).sessions id := by
      intro id
      by_cases hid : id = sessionIdOf request reply
      · rw [hid]
        cases run_went spec py life.backend request reply with
        | silent _ hle _ => exact hle
        | failure _ _ _ hle _ => exact hle
        | round n _ _ _ _ hcounter _ => omega
      · exact (run_elsewhere spec py life.backend hid).ge
    intro e he
    cases List.mem_append.mp he with
    | inl hold =>
      have hbelow := h e hold
      have hle := hgrow e.sessionId
      show e.sequence < max (counter (spec.run py life.backend request reply).sessions e.sessionId) 1
      omega
    | inr hnew =>
      show e.sequence < max (counter (spec.run py life.backend request reply).sessions e.sessionId) 1
      cases run_went spec py life.backend request reply with
      | silent hnone _ _ =>
        rw [hnone] at hnew
        exact nomatch hnew
      | failure _ _ _ _ hstamps =>
        have hmem := mem_of_stamps (starts_of_eq hstamps) hnew
        omega
      | round n _ _ _ _ hcounter hstamps =>
        have hmem := mem_of_stamps (starts_of_eq hstamps) hnew
        rw [hmem.1, hcounter]
        omega
  | release id =>
    cases hstep
    intro e he
    obtain ⟨hmem, hne⟩ := List.mem_filter.mp he
    have hsame : counter (releaseSession life.backend id) e.sessionId = counter life.backend e.sessionId :=
      (counter_update _ _ _ _).trans (if_neg (of_decide_eq_true hne))
    show e.sequence < max (counter (releaseSession life.backend id) e.sessionId) 1
    rw [hsame]
    exact h e hmem

theorem eventsOf_nil_iff {life : Life Sessions} {id : Text} :
    life.eventsOf id = [] ↔ ∀ e ∈ life.delivered, e.sessionId ≠ id := by
  unfold Life.eventsOf
  rw [List.filter_eq_nil_iff]
  exact ⟨fun h e he heq => h e he (decide_eq_true heq), fun h e he heq => h e he (of_decide_eq_true heq)⟩

theorem ordered_step_iff (life : Life Sessions) (call : Call) (next : Life Sessions) (hpassed : Passed life)
    (hordered : life.Ordered) (hstep : step spec py life call = some next) : next.Ordered ↔ Regular life call := by
  cases call with
  | release id =>
    cases hstep
    exact iff_of_true (hordered.forget id) trivial
  | run request reply =>
    cases hstep
    show InOrderEach (life.delivered ++ (spec.run py life.backend request reply).delivered) ↔ _
    cases run_went spec py life.backend request reply with
    | silent hnone _ hheard =>
      rw [hnone, List.append_nil]
      refine iff_of_true hordered fun h => ⟨fun hfails => ?_, fun hreturns => ?_⟩
      · rw [(hheard h).1] at hfails
        exact nomatch hfails
      · rw [(hheard h).2] at hreturns
        exact nomatch hreturns
    | failure hheard hfails hreturns _ hstamps =>
      rw [inOrderEach_append_iff hordered (le_refl 1) hstamps]
      constructor
      · intro h _
        refine ⟨fun _ => eventsOf_nil_iff.mpr fun e he hid => ?_, fun hr => ?_⟩
        · exact absurd (h e he hid) (Nat.not_lt_zero _)
        · rw [hreturns] at hr
          exact nomatch hr
      · intro h e he hid
        exact absurd hid (eventsOf_nil_iff.mp ((h hheard).1 hfails) e he)
    | round n hn hheard hfails hreturns _ hstamps =>
      rw [inOrderEach_append_iff hordered hn hstamps]
      constructor
      · intro h _
        refine ⟨fun hf => ?_, fun _ => ?_⟩
        · rw [hfails] at hf
          exact nomatch hf
        · by_cases hzero : 0 < counter life.backend (sessionIdOf request reply)
          · exact .inr hzero
          · refine .inl (eventsOf_nil_iff.mpr fun e he hid => ?_)
            have := h e he hid
            omega
      · intro h e he hid
        cases (h hheard).2 hreturns with
        | inl hnone => exact absurd hid (eventsOf_nil_iff.mp hnone e he)
        | inr hzero =>
          have := hpassed e he
          rw [hid] at this
          omega

end

def start : Life Sessions := ⟨fun _ => none, []⟩

end Dsh

/-- The native backend delivers the events of every session in their order, over any runs, interrupted
runs and releases. The other backend does exactly as long as every run is regular. -/
theorem event_order_iff (b : NativeToolAgentBackend) (env : ℕ → Reply) (native : List NativeCall)
    (spec : Dsh.DshRuntimeSpec) (py : PyData.Builtins) (calls : List Dsh.Call) :
    Everywhere (nativeStep b env) Life.Ordered ⟨{}, []⟩ native ∧
      (Everywhere (Dsh.step spec py) Life.Ordered Dsh.start calls ↔ Meets (Dsh.step spec py) Dsh.Regular Dsh.start calls) := by
  refine ⟨native_everywhere numbered_start native, ?_⟩
  refine everywhere_iff_meets (Dsh.passed_step spec py) (Dsh.ordered_step_iff spec py) ?_ ?_
  · exact fun _ he => nomatch he
  · exact fun _ => ⟨List.Pairwise.nil, List.nodup_nil⟩

namespace Dsh

def repairLimits : AgentSessionLimits := .default

def firstRound : AgentSessionRequest where
  system := "You improve programs.".toList
  user := "Make it faster.".toList
  parentId := "p0".toList
  operator := "diff".toList
  workdir := "/tmp/w".toList
  limits := repairLimits
  hasSink := true
  sessionId := some "s".toList

def quietResult : HarnessResult := ⟨[], "TITLE: faster".toList, some "completed".toList⟩

def completes : Reply where
  answer := fun _ => .ok quietResult

def dies : Reply where
  answer := fun _ => .error (.exception "RuntimeError: the runtime closed its pipe".toList)

def noBuiltins : PyData.Builtins where
  loads := fun _ => .error .recursionError
  dumps := fun _ => []
  intText := fun _ => Option.none
  strOf := fun _ => []
  repr := fun _ => []

theorem failure_repeats_zero : ∃ life, run (step ⟨"deepseek".toList, none⟩ noBuiltins) start
    [.run firstRound completes, .run firstRound dies] = some life ∧
    (life.eventsOf "s".toList).map (·.sequence) = [0, 1, 0] ∧ ¬life.Ordered := by
  refine ⟨_, rfl, rfl, fun h => ?_⟩
  have horder := (h "s".toList).1
  exact absurd horder (by decide)

end Dsh
end EvoHarness.Core.Agent
