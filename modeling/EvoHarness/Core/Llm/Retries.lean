import EvoHarness.Core.Agent.Messages
import EvoHarness.Core.Llm.HttpErrors
import Mathlib.Data.NNRat.Defs
import Mathlib.Algebra.Order.Ring.Rat
import Mathlib.Algebra.Order.Field.Rat
import Mathlib.Tactic.Linarith

/-! `LLMClient.query_messages`: two retry budgets and one deadline in one loop. The clock and the
transport are streams of what they answer. -/
namespace EvoHarness.Core.Llm
open PyText

structure RetrySettings where
  maxRetries : ℕ := 3
  retryBackoffS : ℚ≥0 := 1
  retryBackoffCapS : ℚ≥0 := 15
  rateLimitRetries : ℕ := 6
  rateLimitBackoffS : ℚ≥0 := 10
  rateLimitBackoffCapS : ℚ≥0 := 90
  maxRetries_pos : 1 ≤ maxRetries := by decide
  rateLimitRetries_pos : 1 ≤ rateLimitRetries := by decide

/-- What a call of the transport comes to. A lost connection or a timeout counts as transient;
`raised` is any exception that is not caught. -/
inductive Answer where
  | returned
  | raised
  | transient
  | rateLimited (retryAfterS : Option FloatValue)

def Answer.failed : Answer → Bool
  | .transient | .rateLimited _ => true
  | _ => false

def Answer.Forward : Answer → Prop
  | .rateLimited (some s) => s.Forward
  | _ => True

structure Counters where
  attempt : ℕ := 0
  rateLimited : ℕ := 0

def Counters.count (c : Counters) : Answer → Counters
  | .transient => { c with attempt := c.attempt + 1 }
  | .rateLimited _ => { c with rateLimited := c.rateLimited + 1 }
  | _ => c

section
variable (st : RetrySettings)

def exhausted (c : Counters) : Answer → Bool
  | .transient => st.maxRetries ≤ c.attempt
  | .rateLimited _ => st.rateLimitRetries ≤ c.rateLimited
  | _ => false

def orOwn (own : ℚ) : Option FloatValue → FloatValue
  | none => .finite own
  | some s => if s = .finite 0 then .finite own else s

def backoffS (c : Counters) : Answer → FloatValue
  | .rateLimited retryAfterS =>
    (orOwn (st.rateLimitBackoffS * 2 ^ (c.rateLimited - 1)) retryAfterS).atMost st.rateLimitBackoffCapS
  | _ => .finite (min (st.retryBackoffS * c.attempt) st.retryBackoffCapS)

end

inductive Event where
  | call (now timeoutS : Option ℚ)
  | sleep (now : Option ℚ) (seconds : FloatValue)

inductive Ending where
  | returned
  | raised
  | deadlineExhausted
  | retriesExhausted
  | invalid (message : Text)
deriving DecidableEq

def Answer.ending : Answer → Ending
  | .returned => .returned
  | _ => .raised

structure Trace where
  events : List Event
  ending : Ending

def Trace.after (events : List Event) (t : Trace) : Trace := { t with events := events ++ t.events }

section
variable (st : RetrySettings) (deadline : Option ℚ) (clock : ℕ → ℚ) (answer : ℕ → Answer)

structure LoopState where
  calls : ℕ := 0
  readings : ℕ := 0
  counters : Counters := {}

def LoopState.read (s : LoopState) : LoopState :=
  { s with readings := if deadline.isSome then s.readings + 1 else s.readings }

/-- After a call of the transport that came to `outcome`. -/
def LoopState.called (s : LoopState) (outcome : Answer) : LoopState :=
  { s with calls := s.calls + 1, counters := s.counters.count outcome }

def remainingS (s : LoopState) : Option ℚ := deadline.map fun d => d - clock s.readings

def reading (s : LoopState) : Option ℚ := deadline.map fun _ => clock s.readings

def outOfTime (s : LoopState) (seconds : FloatValue) : Bool := (remainingS deadline clock s).any seconds.reaches

/-- The `while True` of `query_messages`, for at most `fuel` calls. -/
def queryLoop : ℕ → LoopState → Option Trace
  | 0, _ => none
  | fuel + 1, s =>
    if outOfTime deadline clock s (.finite 0) then some ⟨[], .deadlineExhausted⟩
    else
      let call := .call (reading deadline clock s) (remainingS deadline clock s)
      let outcome := answer s.calls
      let s := (s.read deadline).called outcome
      if outcome.failed then
        let seconds := backoffS st s.counters outcome
        if exhausted st s.counters outcome then some ⟨[call], .retriesExhausted⟩
        else if outOfTime deadline clock s seconds then some ⟨[call], .deadlineExhausted⟩
        else
          (queryLoop fuel (s.read deadline)).map
            (.after [call, .sleep (reading deadline clock s) seconds])
      else some ⟨[call], outcome.ending⟩

end

inductive LLMToolChoice where
  | auto
  | none
  | required
  | specific (name : Text)

/-- What `query_messages` looks at before its first call. -/
structure Query where
  messages : List Agent.LLMMessage
  timeoutS : Option FloatValue := none
  tools : List Text := []
  toolChoice : LLMToolChoice := .auto

/-- `_normalize_tool_request`: the message of its `ValueError`, if there is one. -/
def Query.toolFault (q : Query) : Option Text :=
  if ¬q.tools.Nodup then some "tool names must be unique per request".toList
  else
    match q.toolChoice with
    | .auto | .none => .none
    | .required =>
      if q.tools = [] then some "required or specific tool choice needs at least one tool".toList else .none
    | .specific name =>
      if q.tools = [] then some "required or specific tool choice needs at least one tool".toList
      else if name ∉ q.tools then some "specific tool choice must name an available tool".toList
      else .none

def Query.fault (q : Query) : Option Text :=
  if q.messages = [] then some "messages must contain at least one message".toList
  else if q.timeoutS.any fun s => !s.positive then some "timeout_s must be positive and finite".toList
  else q.toolFault

def Query.deadline (q : Query) (clock : ℕ → ℚ) : Option ℚ :=
  q.timeoutS.bind fun
    | .finite s => some (clock 0 + s)
    | _ => none

def queryMessages (st : RetrySettings) (q : Query) (clock : ℕ → ℚ) (answer : ℕ → Answer) (fuel : ℕ) : Option Trace :=
  match q.fault with
  | some message => some ⟨[], .invalid message⟩
  | none =>
    let deadline := q.deadline clock
    queryLoop st deadline clock answer fuel (LoopState.read deadline {})

def Event.isCall : Event → Bool
  | .call _ _ => true
  | .sleep _ _ => false

/-- A call starts before the deadline, with no more time than is left; a sleep takes a number of
seconds that is not negative and ends by the deadline. -/
def Event.Orderly (deadline : Option ℚ) : Event → Prop
  | .call now timeoutS => ∀ d ∈ deadline, ∃ n t, now = some n ∧ timeoutS = some t ∧ n < d ∧ t ≤ d - n
  | .sleep now seconds =>
    ∃ q, seconds = .finite q ∧ 0 ≤ q ∧ ∀ d ∈ deadline, ∃ n, now = some n ∧ n + q ≤ d

def Trace.calls (t : Trace) : ℕ := t.events.countP (·.isCall)

structure Trace.Bounded (st : RetrySettings) (deadline : Option ℚ) (t : Trace) : Prop where
  calls : t.calls ≤ st.maxRetries + st.rateLimitRetries - 1
  orderly : ∀ e ∈ t.events, e.Orderly deadline

section
variable (st : RetrySettings) (deadline : Option ℚ) (clock : ℕ → ℚ) (answer : ℕ → Answer)

def Counters.after : ℕ → Counters
  | 0 => {}
  | k + 1 => (after k).count (answer k)

def Starts (k : ℕ) : Prop := ∀ d ∈ deadline, clock (2 * k + 1) < d

def delay (k : ℕ) : FloatValue := backoffS st (Counters.after answer (k + 1)) (answer k)

/-- Call `k` fails, its budget is not used up, and there is time left for the delay. -/
structure Waits (k : ℕ) : Prop where
  failed : (answer k).failed = true
  left : exhausted st (Counters.after answer (k + 1)) (answer k) = false
  time : ∀ d ∈ deadline, (delay st answer k).reaches (d - clock (2 * k + 2)) = false

def Sleeps (k : ℕ) : Prop := ∀ i ≤ k, Starts deadline clock i ∧ Waits st deadline clock answer i

def stateAt (k : ℕ) : LoopState where
  calls := k
  readings := if deadline.isSome then 2 * k + 1 else 0
  counters := Counters.after answer k

def callAt (k : ℕ) : Event :=
  .call (deadline.map fun _ => clock (2 * k + 1)) (deadline.map fun d => d - clock (2 * k + 1))

def sleepAt (k : ℕ) : Event := .sleep (deadline.map fun _ => clock (2 * k + 2)) (delay st answer k)

variable {st deadline clock answer}

theorem outOfTime_stateAt {k : ℕ} : outOfTime deadline clock (stateAt deadline answer k) (.finite 0) = false ↔
    Starts deadline clock k := by
  cases deadline <;> simp [outOfTime, remainingS, stateAt, Starts, FloatValue.reaches]

/-- Where the loop stands after call `k`, with the clock read once for it. -/
def calledAt (deadline : Option ℚ) (answer : ℕ → Answer) (k : ℕ) : LoopState where
  calls := k + 1
  readings := if deadline.isSome then 2 * k + 2 else 0
  counters := Counters.after answer (k + 1)

theorem called_stateAt (k : ℕ) : ((stateAt deadline answer k).read deadline).called (answer k) = calledAt deadline answer k := by
  cases deadline <;> rfl

theorem read_calledAt (k : ℕ) : (calledAt deadline answer k).read deadline = stateAt deadline answer (k + 1) := by
  cases deadline <;> rfl

theorem outOfTime_calledAt {k : ℕ} {seconds : FloatValue} : outOfTime deadline clock (calledAt deadline answer k) seconds = false ↔
    ∀ d ∈ deadline, seconds.reaches (d - clock (2 * k + 2)) = false := by
  cases deadline <;> simp [outOfTime, remainingS, calledAt]

theorem call_stateAt (k : ℕ) : Event.call (reading deadline clock (stateAt deadline answer k))
    (remainingS deadline clock (stateAt deadline answer k)) = callAt deadline clock k := by
  cases deadline <;> rfl

theorem sleep_calledAt (k : ℕ) : Event.sleep (reading deadline clock (calledAt deadline answer k))
    (backoffS st (calledAt deadline answer k).counters (answer k)) = sleepAt st deadline clock answer k := by
  cases deadline <;> rfl

theorem queryLoop_sleeps {n k : ℕ} (hstarts : Starts deadline clock k) (hwaits : Waits st deadline clock answer k) :
    queryLoop st deadline clock answer (n + 1) (stateAt deadline answer k) =
      (queryLoop st deadline clock answer n (stateAt deadline answer (k + 1))).map
        (.after [callAt deadline clock k, sleepAt st deadline clock answer k]) := by
  have hcalls : (stateAt deadline answer k).calls = k := rfl
  have htime : outOfTime deadline clock (calledAt deadline answer k)
      (backoffS st (calledAt deadline answer k).counters (answer k)) = false := outOfTime_calledAt.mpr hwaits.time
  have hleft : exhausted st (calledAt deadline answer k).counters (answer k) = false := hwaits.left
  simp only [queryLoop, outOfTime_stateAt.mpr hstarts, call_stateAt, hcalls, called_stateAt, read_calledAt]
  simp only [hwaits.failed, hleft, htime, sleep_calledAt, Bool.false_eq_true, if_false, if_true]

theorem queryLoop_stops {k : ℕ} (h : ¬(Starts deadline clock k ∧ Waits st deadline clock answer k)) :
    ∃ t, (∀ n, queryLoop st deadline clock answer (n + 1) (stateAt deadline answer k) = some t) ∧
      (t.events = [] ∨ t.events = [callAt deadline clock k] ∧ Starts deadline clock k) := by
  have hcalls : (stateAt deadline answer k).calls = k := rfl
  by_cases hstarts : Starts deadline clock k
  · have hwaits : ¬Waits st deadline clock answer k := fun hwaits => h ⟨hstarts, hwaits⟩
    simp only [queryLoop, outOfTime_stateAt.mpr hstarts, call_stateAt, hcalls, called_stateAt, Bool.false_eq_true, if_false]
    split
    · next hfailed =>
      split
      · exact ⟨_, fun _ => rfl, .inr ⟨rfl, hstarts⟩⟩
      · next hleft =>
        split
        · exact ⟨_, fun _ => rfl, .inr ⟨rfl, hstarts⟩⟩
        · next htime =>
          exact absurd ⟨hfailed, Bool.eq_false_iff.mpr hleft, outOfTime_calledAt.mp (Bool.eq_false_iff.mpr htime)⟩ hwaits
    · exact ⟨_, fun _ => rfl, .inr ⟨rfl, hstarts⟩⟩
  · have hlate : outOfTime deadline clock (stateAt deadline answer k) (.finite 0) = true := by
      by_contra hlate
      exact hstarts (outOfTime_stateAt.mp (Bool.eq_false_iff.mpr hlate))
    exact ⟨⟨[], .deadlineExhausted⟩, fun _ => by rw [queryLoop, if_pos hlate], .inl rfl⟩

structure Counters.Within (st : RetrySettings) (c : Counters) : Prop where
  attempt : c.attempt < st.maxRetries
  rateLimited : c.rateLimited < st.rateLimitRetries

def Counters.left (st : RetrySettings) (c : Counters) : ℕ :=
  (st.maxRetries - c.attempt) + (st.rateLimitRetries - c.rateLimited)

theorem Counters.Within.two_le {c : Counters} (h : c.Within st) : 2 ≤ c.left st := by
  have := h.attempt
  have := h.rateLimited
  unfold left
  omega

theorem Waits.within {k : ℕ} (h : Waits st deadline clock answer k) (hwithin : (Counters.after answer k).Within st) :
    (Counters.after answer (k + 1)).Within st ∧
      (Counters.after answer (k + 1)).left st + 1 = (Counters.after answer k).left st := by
  have hattempt := hwithin.attempt
  have hlimited := hwithin.rateLimited
  have hfailed := h.failed
  have hleft := h.left
  unfold Counters.left
  rw [Counters.after] at hleft ⊢
  cases hanswer : answer k with
  | returned => rw [hanswer] at hfailed; exact nomatch hfailed
  | raised => rw [hanswer] at hfailed; exact nomatch hfailed
  | transient =>
    rw [hanswer] at hleft
    have hmore := not_le.mp (of_decide_eq_false hleft)
    simp only [Counters.count] at hmore ⊢
    exact ⟨⟨hmore, hlimited⟩, by omega⟩
  | rateLimited retryAfterS =>
    rw [hanswer] at hleft
    have hmore := not_le.mp (of_decide_eq_false hleft)
    simp only [Counters.count] at hmore ⊢
    exact ⟨⟨hattempt, hmore⟩, by omega⟩

theorem calls_after (k : ℕ) (t : Trace) :
    (t.after [callAt deadline clock k, sleepAt st deadline clock answer k]).calls = t.calls + 1 := by
  simp [Trace.calls, Trace.after, callAt, sleepAt, Event.isCall]

/-- The loop comes to an end with fewer calls than there are retries left, however much fuel it has beyond them. -/
theorem queryLoop_ends {m k : ℕ} (hwithin : (Counters.after answer k).Within st)
    (hm : (Counters.after answer k).left st = m) :
    ∃ t, (∀ n, m ≤ n + 1 → queryLoop st deadline clock answer n (stateAt deadline answer k) = some t) ∧ t.calls + 1 ≤ m := by
  have htwo := hwithin.two_le
  induction m generalizing k with
  | zero => omega
  | succ m ih =>
    by_cases h : Starts deadline clock k ∧ Waits st deadline clock answer k
    · obtain ⟨hnext, hleft⟩ := h.2.within hwithin
      obtain ⟨t, ht, hcalls⟩ := ih hnext (by omega) hnext.two_le
      refine ⟨t.after [callAt deadline clock k, sleepAt st deadline clock answer k], fun n hn => ?_, ?_⟩
      · obtain ⟨n, rfl⟩ : ∃ n', n = n' + 1 := ⟨n - 1, by omega⟩
        rw [queryLoop_sleeps h.1 h.2, ht n (by omega)]
        rfl
      · rw [calls_after]
        omega
    · obtain ⟨t, ht, hevents⟩ := queryLoop_stops h
      have hone : t.calls ≤ 1 := by
        cases hevents with
        | inl hnil => simp [Trace.calls, hnil]
        | inr hcall => simp [Trace.calls, hcall.1, callAt, Event.isCall]
      refine ⟨t, fun n hn => ?_, by omega⟩
      obtain ⟨n, rfl⟩ : ∃ n', n = n' + 1 := ⟨n - 1, by omega⟩
      exact ht n

theorem callAt_orderly {k : ℕ} (h : Starts deadline clock k) : (callAt deadline clock k).Orderly deadline := by
  intro d hd
  have hstart := h d hd
  rw [Option.mem_def] at hd
  subst hd
  exact ⟨_, _, rfl, rfl, hstart, le_rfl⟩

theorem Waits.delay_lt {k : ℕ} (h : Waits st deadline clock answer k) {q : ℚ} (hq : delay st answer k = .finite q) :
    ∀ d ∈ deadline, clock (2 * k + 2) + q < d := by
  intro d hd
  have htime := h.time d hd
  rw [hq] at htime
  simp only [FloatValue.reaches, decide_eq_false_iff_not, not_le] at htime
  linarith

theorem atMost_forward {cap : ℚ} (hcap : 0 ≤ cap) {s : FloatValue} (h : s.Forward) :
    ∃ q, s.atMost cap = .finite q ∧ 0 ≤ q := by
  cases s with
  | nan => exact h.elim
  | finite q =>
    refine ⟨_, rfl, ?_⟩
    split
    · exact hcap
    · exact h
  | infinite negative =>
    cases negative with
    | false => exact ⟨cap, rfl, hcap⟩
    | true => exact nomatch h

theorem forward_of_atMost {cap q : ℚ} {s : FloatValue} (h : s.atMost cap = .finite q) (hq : 0 ≤ q) : s.Forward := by
  cases s with
  | nan => exact nomatch h
  | finite r =>
    have hmin : (if cap < r then cap else r) = q := FloatValue.finite.inj h
    show 0 ≤ r
    split at hmin
    · next hlt => linarith
    · linarith
  | infinite negative =>
    cases negative with
    | false => rfl
    | true => exact nomatch h

theorem orOwn_forward_iff {own : ℚ} (hown : 0 ≤ own) {retryAfterS : Option FloatValue} :
    (orOwn own retryAfterS).Forward ↔ ∀ s ∈ retryAfterS, s.Forward := by
  cases retryAfterS with
  | none => simpa [orOwn, FloatValue.Forward] using hown
  | some s =>
    by_cases hzero : s = .finite 0
    · simpa [orOwn, hzero, FloatValue.Forward] using hown
    · simp [orOwn, hzero]

/-- A delay is a number of seconds that is not negative, unless the endpoint asked for another one. -/
theorem delay_forward_iff {k : ℕ} (hfailed : (answer k).failed = true) :
    (∃ q, delay st answer k = .finite q ∧ 0 ≤ q) ↔ (answer k).Forward := by
  unfold delay
  cases hanswer : answer k with
  | returned => rw [hanswer] at hfailed; exact nomatch hfailed
  | raised => rw [hanswer] at hfailed; exact nomatch hfailed
  | transient => exact ⟨fun _ => trivial, fun _ => ⟨_, rfl, by positivity⟩⟩
  | rateLimited retryAfterS =>
    have hown : (0 : ℚ) ≤ st.rateLimitBackoffS * 2 ^ ((Counters.after answer (k + 1)).rateLimited - 1) := by positivity
    have hforward : (Answer.rateLimited retryAfterS).Forward ↔ ∀ s ∈ retryAfterS, s.Forward := by
      cases retryAfterS <;> simp [Answer.Forward]
    rw [hforward, ← orOwn_forward_iff hown]
    constructor
    · intro hdelay
      obtain ⟨q, hq, hpos⟩ := hdelay
      exact forward_of_atMost hq hpos
    · exact fun hforward => atMost_forward st.rateLimitBackoffCapS.2 hforward

theorem sleepAt_orderly_iff {k : ℕ} (h : Waits st deadline clock answer k) :
    (sleepAt st deadline clock answer k).Orderly deadline ↔ (answer k).Forward := by
  rw [← delay_forward_iff h.failed]
  constructor
  · intro horderly
    obtain ⟨q, hq, hpos, -⟩ := horderly
    exact ⟨q, hq, hpos⟩
  · intro hforward
    obtain ⟨q, hq, hpos⟩ := hforward
    refine ⟨q, hq, hpos, fun d hd => ?_⟩
    have hlt := h.delay_lt hq d hd
    rw [Option.mem_def] at hd
    subst hd
    exact ⟨_, rfl, hlt.le⟩

/-- The rest of a run is orderly exactly if nothing the loop sleeps on asks for a time that is not ahead. -/
theorem queryLoop_orderly_iff {n k : ℕ} {t : Trace}
    (ht : queryLoop st deadline clock answer n (stateAt deadline answer k) = some t) :
    (∀ e ∈ t.events, e.Orderly deadline) ↔
      ∀ j, k ≤ j → (∀ i, k ≤ i → i ≤ j → Starts deadline clock i ∧ Waits st deadline clock answer i) → (answer j).Forward := by
  induction n generalizing k t with
  | zero => exact nomatch ht
  | succ n ih =>
    by_cases h : Starts deadline clock k ∧ Waits st deadline clock answer k
    · rw [queryLoop_sleeps h.1 h.2] at ht
      obtain ⟨t', ht', rfl⟩ := Option.map_eq_some_iff.mp ht
      have hsplit : (∀ e ∈ (t'.after [callAt deadline clock k, sleepAt st deadline clock answer k]).events, e.Orderly deadline) ↔
          (answer k).Forward ∧ ∀ e ∈ t'.events, e.Orderly deadline := by
        rw [← sleepAt_orderly_iff h.2]
        simp only [Trace.after, List.cons_append, List.nil_append, List.forall_mem_cons]
        exact ⟨fun h => h.2, fun hrest => ⟨callAt_orderly h.1, hrest⟩⟩
      rw [hsplit, ih ht']
      constructor
      · intro hboth j hkj hsleeps
        cases hkj.eq_or_lt with
        | inl heq => exact heq ▸ hboth.1
        | inr hlt => exact hboth.2 j hlt fun i hki hij => hsleeps i (by omega) hij
      · intro hall
        have hone : ∀ i, k ≤ i → i ≤ k → i = k := fun i hki hik => le_antisymm hik hki
        refine ⟨hall k le_rfl fun i hki hik => hone i hki hik ▸ h, fun j hkj hsleeps => hall j (by omega) fun i hki hij => ?_⟩
        cases hki.eq_or_lt with
        | inl heq => exact heq ▸ h
        | inr hlt => exact hsleeps i hlt hij
    · obtain ⟨t', ht', hevents⟩ := queryLoop_stops h
      rw [ht' n] at ht
      obtain rfl := Option.some.inj ht
      constructor
      · exact fun _ j hkj hsleeps => absurd (hsleeps k le_rfl hkj) h
      · intro _ e he
        cases hevents with
        | inl hnil =>
          rw [hnil] at he
          exact nomatch he
        | inr hcall =>
          rw [hcall.1, List.mem_singleton] at he
          exact he ▸ callAt_orderly hcall.2

end

theorem read_start (deadline : Option ℚ) (answer : ℕ → Answer) : LoopState.read deadline {} = stateAt deadline answer 0 := by
  cases deadline <;> rfl

theorem Counters.within_start (st : RetrySettings) : ({} : Counters).Within st :=
  ⟨st.maxRetries_pos, st.rateLimitRetries_pos⟩

/-- Every query comes to an end within the two budgets. It is orderly exactly if no rate limit that it
sleeps on carries a `Retry-After` that is negative or not a number. -/
theorem query_bounded_iff (st : RetrySettings) (q : Query) (clock : ℕ → ℚ) (answer : ℕ → Answer) :
    ∃ t, (∀ fuel, st.maxRetries + st.rateLimitRetries ≤ fuel + 1 → queryMessages st q clock answer fuel = some t) ∧
      (t.Bounded st (q.deadline clock) ↔
        (q.fault = none → ∀ k, Sleeps st (q.deadline clock) clock answer k → (answer k).Forward)) := by
  cases hfault : q.fault with
  | some message =>
    refine ⟨⟨[], .invalid message⟩, fun fuel _ => by rw [queryMessages, hfault], ⟨fun _ h => (nomatch h), fun _ => ?_⟩⟩
    exact ⟨Nat.zero_le _, fun e he => nomatch he⟩
  | none =>
    obtain ⟨t, ht, hcalls⟩ := @queryLoop_ends st (q.deadline clock) clock answer _ 0 (Counters.within_start st) rfl
    have hleft : (Counters.after answer 0).left st = st.maxRetries + st.rateLimitRetries := rfl
    rw [hleft] at ht hcalls
    refine ⟨t, fun fuel hfuel => ?_, ?_⟩
    · rw [queryMessages, hfault]
      dsimp only
      rw [read_start (q.deadline clock) answer]
      exact ht fuel hfuel
    · have horderly := queryLoop_orderly_iff (ht (st.maxRetries + st.rateLimitRetries) (by omega))
      constructor
      · intro hbounded _ k hsleeps
        exact horderly.mp hbounded.orderly k (Nat.zero_le k) fun i _ hik => hsleeps i hik
      · intro hforward
        refine ⟨by omega, horderly.mpr fun j _ hsleeps => ?_⟩
        exact hforward rfl j fun i hij => hsleeps i (Nat.zero_le i) hij

def minusOne : ℕ → Answer
  | 0 => .rateLimited (some (.finite (-1)))
  | _ => .returned

def hello : Query := { messages := [.user "hello".toList] }

theorem minusOne_trace : queryMessages {} hello (fun _ => 0) minusOne 8 =
    some ⟨[.call none none, .sleep none (.finite (-1)), .call none none], .returned⟩ := by
  rfl

theorem sleeps_backwards : ¬ ∀ (st : RetrySettings) (q : Query) (clock : ℕ → ℚ) (answer : ℕ → Answer) (fuel : ℕ) (t : Trace),
    Monotone clock → queryMessages st q clock answer fuel = some t → t.Bounded st (q.deadline clock) := by
  intro hclaim
  have hbounded := hclaim {} hello (fun _ => 0) minusOne 8 _ monotone_const minusOne_trace
  obtain ⟨q, hq, hpos, -⟩ := hbounded.orderly (.sleep none (.finite (-1))) (by simp)
  rw [← FloatValue.finite.inj hq] at hpos
  exact absurd hpos (by norm_num)

end EvoHarness.Core.Llm
