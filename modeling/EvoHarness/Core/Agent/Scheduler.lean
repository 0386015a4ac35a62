import EvoHarness.Core.Agent.Runtime
import EvoHarness.Library.Runs

/-! The tool scheduler with its worker threads: every reading of the clock, every judgement, every
submission, and every start and end of a call is a step of its own, so a run is an interleaving of
the coordinating thread and the workers. -/
namespace EvoHarness.Core.Agent.Scheduler
open PyText Runs

inductive Status where
  | idle
  | queued
  | running
  | finished (r : LLMToolResult)

/-- Where the coordinating thread stands: at the head of the outer loop, in the inner loop with the
safe batch, with futures still to submit, with futures still to wait for, behind an empty batch, or
running a call itself. -/
inductive Control where
  | loop
  | gather (batch : List ℕ)
  | submit (batch todo : List ℕ)
  | collect (todo : List ℕ)
  | alone
  | calling (index : ℕ)
  | returned
  | raised
deriving DecidableEq

/-- `now` is the last reading of the clock, and `unsafeSeen i` says how call `i` was judged last. -/
structure State where
  control : Control := .loop
  index : ℕ := 0
  results : List (Option LLMToolResult)
  startedCount : ℕ := 0
  timedOut : Bool := false
  status : ℕ → Status := fun _ => .idle
  unsafeSeen : ℕ → Bool := fun _ => false
  now : ℚ

/-- What the threads do, with what they hear: the reading of the clock, the judgement of the call,
whether its context or its submission raises, and the answer of its tool. -/
inductive Act where
  | enter (time : ℚ)
  | look (time : ℚ) (safe contextRaises : Bool)
  | submit (raises : Bool)
  | collect
  | alone (time : ℚ) (contextRaises : Bool)
  | answer (a : ToolAnswer)
  | take (i : ℕ)
  | finish (i : ℕ) (a : ToolAnswer)

def isRunning : Status → Bool
  | .running => true
  | _ => false

section
variable (tools : List AgentTool) (maxWorkers : ℕ) (calls : List LLMToolCall) (deadline : ℚ)

def timeOut (s : State) : State :=
  { s with results := fillTimeoutResults calls s.results s.index, timedOut := true }

def closeBatch (s : State) (batch : List ℕ) : State :=
  { s with control := if batch = [] then .alone else .submit batch batch }

def running (s : State) : ℕ := ((List.range calls.length).filter fun i => isRunning (s.status i)).length

def enter (s : State) (time : ℚ) : State :=
  if calls.length ≤ s.index then { s with control := .returned }
  else if deadline ≤ time then { timeOut calls { s with now := time } with control := .returned }
  else { s with now := time, control := .gather [] }

def look (s : State) (batch : List ℕ) (time : ℚ) (safe contextRaises : Bool) : State :=
  if calls.length ≤ s.index then closeBatch s batch
  else if deadline ≤ time then closeBatch (timeOut calls { s with now := time }) batch
  else if contextRaises = true then { s with now := time, control := .raised }
  else if safe = true then
    { s with
      now := time
      unsafeSeen := Function.update s.unsafeSeen s.index false
      index := s.index + 1
      control := .gather (batch ++ [s.index]) }
  else closeBatch { s with now := time, unsafeSeen := Function.update s.unsafeSeen s.index true } batch

def submit (s : State) (batch todo : List ℕ) (i : ℕ) : State :=
  let t := { s with status := Function.update s.status i .queued }
  if todo = [] then { t with control := .collect batch, startedCount := s.startedCount + batch.length }
  else { t with control := .submit batch todo }

def callAlone (s : State) (time : ℚ) (contextRaises : Bool) : State :=
  if calls.length ≤ s.index then { s with control := .returned }
  else if deadline ≤ time then { timeOut calls { s with now := time } with control := .returned }
  else if contextRaises = true then { s with now := time, control := .raised }
  else
    { s with
      now := time
      status := Function.update s.status s.index .running
      control := .calling s.index }

def answered (s : State) (i : ℕ) (r : LLMToolResult) : State :=
  { s with
    status := Function.update s.status i (.finished r)
    results := s.results.set i (some r)
    startedCount := s.startedCount + 1
    index := s.index + 1
    control := .loop }

/-- One step of the coordinating thread or of a worker. Which of the queued calls a worker takes is
left open. -/
def step (s : State) : Act → Option State
  | .enter time => if s.control = .loop then some (enter calls deadline s time) else none
  | .look time safe contextRaises =>
    match s.control with
    | .gather batch => some (look calls deadline s batch time safe contextRaises)
    | _ => none
  | .submit raises =>
    match s.control with
    | .submit batch (i :: todo) =>
      if raises = true then some { s with control := .raised } else some (submit s batch todo i)
    | _ => none
  | .collect =>
    match s.control with
    | .collect [] => some { s with control := .loop }
    | .collect (i :: todo) =>
      match s.status i with
      | .finished r => some { s with results := s.results.set i (some r), control := .collect todo }
      | _ => none
    | _ => none
  | .alone time contextRaises =>
    if s.control = .alone then some (callAlone calls deadline s time contextRaises) else none
  | .answer a =>
    match s.control with
    | .calling i => (calls[i]?).map fun call => answered s i (invoke tools call a)
    | _ => none
  | .take i =>
    match s.status i with
    | .queued =>
      if running calls s < maxWorkers then some { s with status := Function.update s.status i .running } else none
    | _ => none
  | .finish i a =>
    match s.status i with
    | .running =>
      if s.control = .calling i then none
      else (calls[i]?).map fun call => { s with status := Function.update s.status i (.finished (invoke tools call a)) }
    | _ => none

def start (now : ℚ) : State := { results := List.replicate calls.length none, now }

def Busy : Status → Prop
  | .queued => True
  | .running => True
  | _ => False

/-- The first `n` calls have their results, and these are in the list. -/
def Settled (s : State) (n : ℕ) : Prop :=
  ∀ i < n, ∃ r, s.status i = .finished r ∧ s.results[i]? = some (some r)

def Idle (s : State) (n : ℕ) : Prop := ∀ i, n ≤ i → s.status i = .idle

def Given (s : State) (k n : ℕ) : Prop := ∀ i, k ≤ i → i < n → s.status i ≠ .idle

def timeoutResult (call : LLMToolCall) : LLMToolResult := makeToolError call.callId "timeout".toList timeoutMessage

def FilledUp (s : State) : Prop :=
  ∀ i call, s.index ≤ i → calls[i]? = some call → s.results[i]? = some (some (timeoutResult call))

structure Quiet (s : State) : Prop where
  count : s.startedCount = s.index
  settled : Settled s s.index
  idle : Idle s s.index

structure Gathered (s : State) (batch : List ℕ) : Prop where
  count : s.startedCount ≤ s.index
  listed : batch = List.range' s.startedCount (s.index - s.startedCount)
  settled : Settled s s.startedCount
  safe : ∀ i ∈ batch, s.unsafeSeen i = false

def At (s : State) : Control → Prop
  | .loop => Quiet s
  | .gather batch => Gathered s batch ∧ Idle s s.startedCount
  | .submit batch todo =>
    Gathered s batch ∧ ∃ k, s.startedCount ≤ k ∧ k < s.index ∧ todo = List.range' k (s.index - k) ∧
      Given s s.startedCount k ∧ Idle s k
  | .collect todo =>
    s.startedCount = s.index ∧ Idle s s.index ∧
      ∃ k, k ≤ s.index ∧ todo = List.range' k (s.index - k) ∧ Settled s k ∧ Given s k s.index
  | .alone => Quiet s
  | .calling i =>
    i = s.index ∧ s.index < calls.length ∧ s.startedCount = s.index ∧ Settled s s.index ∧
      s.status s.index = .running ∧ Idle s (s.index + 1)
  | .returned => Quiet s ∧ FilledUp calls s ∧ (s.index < calls.length → s.timedOut = true)
  | .raised => True

/-- `owned`: a call that was judged unsafe is only ever on the coordinating thread. -/
structure Inv (s : State) : Prop where
  length : s.results.length = calls.length
  index : s.index ≤ calls.length
  outside : Idle s calls.length
  ids : ∀ i r, s.status i = .finished r → ∃ call, calls[i]? = some call ∧ r.callId = call.callId
  owned : ∀ i, Busy (s.status i) → s.unsafeSeen i = true → s.control = .calling i
  stands : At calls s s.control

variable {calls}

theorem Idle.mono {s : State} {k n : ℕ} (h : Idle s k) (hkn : k ≤ n) : Idle s n :=
  fun i hi => h i (hkn.trans hi)

theorem Settled.mono {s : State} {k n : ℕ} (h : Settled s n) (hkn : k ≤ n) : Settled s k :=
  fun i hi => h i (hi.trans_le hkn)

theorem inv_start (now : ℚ) : Inv calls (start calls now) where
  length := List.length_replicate
  index := Nat.zero_le _
  outside _ _ := rfl
  ids _ _ h := nomatch h
  owned _ h _ := h.elim
  stands := ⟨rfl, fun _ hi => absurd hi (Nat.not_lt_zero _), fun _ _ => rfl⟩

variable {tools maxWorkers deadline} {s : State}

theorem fillTimeoutResults_length {results : List (Option LLMToolResult)} {start : ℕ}
    (hlength : results.length = calls.length) (hstart : start ≤ calls.length) :
    (fillTimeoutResults calls results start).length = calls.length := by
  simp [fillTimeoutResults]
  omega

theorem fillTimeoutResults_before {results : List (Option LLMToolResult)} {start i : ℕ}
    (hstart : start ≤ results.length) (hi : i < start) :
    (fillTimeoutResults calls results start)[i]? = results[i]? := by
  unfold fillTimeoutResults
  rw [List.getElem?_append_left (by simp; omega), List.getElem?_take_of_lt hi]

theorem fillTimeoutResults_after {results : List (Option LLMToolResult)} {start i : ℕ} {call : LLMToolCall}
    (hstart : start ≤ results.length) (hi : start ≤ i) (hcall : calls[i]? = some call) :
    (fillTimeoutResults calls results start)[i]? = some (some (timeoutResult call)) := by
  have hlength : (results.take start).length = start := by simp; omega
  unfold fillTimeoutResults
  rw [List.getElem?_append_right (by omega), hlength, List.getElem?_map, List.getElem?_drop,
    Nat.add_sub_cancel' hi, hcall]
  rfl

theorem Settled.timeOut {n : ℕ} (hlength : s.index ≤ s.results.length) (hn : n ≤ s.index) (h : Settled s n) :
    Settled (timeOut calls s) n := by
  intro i hi
  obtain ⟨r, hstatus, hresult⟩ := h i hi
  exact ⟨r, hstatus, (fillTimeoutResults_before hlength (hi.trans_le hn)).trans hresult⟩

theorem Quiet.elsewhere {c : Control} {b : Bool} {u : ℕ → Bool} {time : ℚ} (h : Quiet s) :
    Quiet { s with control := c, timedOut := b, unsafeSeen := u, now := time } :=
  ⟨h.count, h.settled, h.idle⟩

theorem Quiet.timeOut (hlength : s.index ≤ s.results.length) (h : Quiet s) : Quiet (timeOut calls s) :=
  ⟨h.count, h.settled.timeOut hlength le_rfl, h.idle⟩

theorem filledUp_timeOut (hlength : s.index ≤ s.results.length) : FilledUp calls (timeOut calls s) :=
  fun _ _ hi hcall => fillTimeoutResults_after hlength hi hcall

theorem filledUp_last (h : calls.length ≤ s.index) : FilledUp calls s := by
  intro i call hi hcall
  have := (List.getElem?_eq_some_iff.mp hcall).1
  omega

theorem Inv.moved {t : State} (h : Inv calls s) (hlength : t.results.length = calls.length)
    (hindex : t.index ≤ calls.length) (hstatus : t.status = s.status)
    (hpool : ∀ i, Busy (s.status i) → t.unsafeSeen i ≠ true) (hat : At calls t t.control) : Inv calls t where
  length := hlength
  index := hindex
  outside i hi := by rw [hstatus]; exact h.outside i hi
  ids i r hr := h.ids i r (by rwa [hstatus] at hr)
  owned i hb hu := absurd hu (hpool i (by rwa [hstatus] at hb))
  stands := hat

theorem Inv.pooled (h : Inv calls s) (hc : ∀ i, s.control ≠ .calling i) (i : ℕ) (hb : Busy (s.status i)) :
    s.unsafeSeen i ≠ true := fun hu => hc i (h.owned i hb hu)

theorem Inv.room (h : Inv calls s) : s.index ≤ s.results.length := by
  rw [h.length]
  exact h.index

theorem inv_enter {time : ℚ} (h : Inv calls s) (hc : s.control = .loop) :
    Inv calls (enter calls deadline s time) := by
  have hat : Quiet s := by simpa [At, hc] using h.stands
  have hpool := h.pooled (by simp [hc])
  unfold enter
  split
  case isTrue hlast =>
    exact h.moved h.length h.index rfl hpool ⟨hat.elsewhere, filledUp_last hlast, fun hlt => absurd hlast (Nat.not_le.mpr hlt)⟩
  case isFalse =>
    split
    case isTrue =>
      exact h.moved (fillTimeoutResults_length h.length h.index) h.index rfl hpool
        ⟨(hat.timeOut h.room).elsewhere, filledUp_timeOut h.room, fun _ => rfl⟩
    case isFalse =>
      have hidle : Idle s s.startedCount := hat.count ▸ hat.idle
      have hsettled : Settled s s.startedCount := hat.count ▸ hat.settled
      exact h.moved h.length h.index rfl hpool ⟨⟨hat.count.le, by simp [hat.count], hsettled, by simp⟩, hidle⟩

theorem Gathered.timeOut {batch : List ℕ} (hlength : s.index ≤ s.results.length) (h : Gathered s batch) :
    Gathered (timeOut calls s) batch :=
  ⟨h.count, h.listed, h.settled.timeOut hlength h.count, h.safe⟩

/-- The inner loop has ended: with an empty batch nothing was gathered since the last call. -/
theorem at_closeBatch {batch : List ℕ} (hg : Gathered s batch) (hidle : Idle s s.startedCount) :
    At calls (closeBatch s batch) (closeBatch s batch).control := by
  unfold closeBatch
  by_cases hempty : batch = []
  · have hnone : s.index - s.startedCount = 0 := by
      have hnil := hg.listed.symm.trans hempty
      exact List.range'_eq_nil_iff.mp hnil
    have hcount : s.startedCount = s.index := by
      have := hg.count
      omega
    have hquiet : Quiet s := ⟨hcount, hcount ▸ hg.settled, hcount ▸ hidle⟩
    simp only [hempty, if_true]
    exact hquiet.elsewhere
  · have hsome : s.startedCount < s.index := by
      have := hg.listed
      by_contra hle
      exact hempty (by simpa [Nat.sub_eq_zero_of_le (Nat.not_lt.mp hle)] using this)
    simp only [hempty, if_false]
    exact ⟨⟨hg.count, hg.listed, hg.settled, hg.safe⟩, s.startedCount, le_rfl, hsome, hg.listed,
      fun i hi hlt => absurd hlt (Nat.not_lt.mpr hi), hidle⟩

theorem Gathered.snoc {batch : List ℕ} {time : ℚ} (h : Gathered s batch) :
    Gathered
      { s with
        now := time
        unsafeSeen := Function.update s.unsafeSeen s.index false
        index := s.index + 1
        control := .gather (batch ++ [s.index]) }
      (batch ++ [s.index]) where
  count := h.count.trans (Nat.le_succ _)
  listed := by
    have hsub : s.index + 1 - s.startedCount = (s.index - s.startedCount) + 1 := Nat.sub_add_comm h.count
    have hlast : s.startedCount + (s.index - s.startedCount) = s.index := Nat.add_sub_cancel' h.count
    simp only [hsub, List.range'_1_concat, hlast, ← h.listed]
  settled := h.settled
  safe i hi := by
    rcases List.mem_append.mp hi with hold | hnew
    · by_cases hi : i = s.index
      · simp [hi]
      · simpa [Function.update_of_ne hi] using h.safe i hold
    · simp [List.mem_singleton.mp hnew]

theorem inv_look {batch : List ℕ} {time : ℚ} {safe contextRaises : Bool} (h : Inv calls s)
    (hc : s.control = .gather batch) : Inv calls (look calls deadline s batch time safe contextRaises) := by
  obtain ⟨hg, hidle⟩ : Gathered s batch ∧ Idle s s.startedCount := by simpa [At, hc] using h.stands
  have hpool := h.pooled (by simp [hc])
  have hfree : ¬Busy (s.status s.index) := by
    rw [hidle s.index hg.count]
    exact not_false
  -- judging the call at the index leaves the busy calls alone
  have hjudged : ∀ b i, Busy (s.status i) → Function.update s.unsafeSeen s.index b i ≠ true := by
    intro b i hb
    have hi : i ≠ s.index := fun he => hfree (he ▸ hb)
    rw [Function.update_of_ne hi]
    exact hpool i hb
  unfold look
  split
  case isTrue => exact h.moved h.length h.index rfl hpool (at_closeBatch hg hidle)
  case isFalse hmore =>
    split
    case isTrue =>
      have hlength := fillTimeoutResults_length h.length h.index
      have hg' : Gathered (timeOut calls { s with now := time }) batch :=
        ⟨hg.count, hg.listed, (hg.timeOut h.room).settled, hg.safe⟩
      exact h.moved hlength h.index rfl hpool (at_closeBatch hg' hidle)
    case isFalse =>
      split
      case isTrue => exact h.moved h.length h.index rfl hpool trivial
      case isFalse =>
        split
        case isTrue => exact h.moved h.length (Nat.not_le.mp hmore) rfl (hjudged false) ⟨hg.snoc, hidle⟩
        case isFalse =>
          have hout : s.index ∉ batch := by
            rw [hg.listed, List.mem_range'_1]
            have := hg.count
            omega
          have hg' : Gathered { s with now := time, unsafeSeen := Function.update s.unsafeSeen s.index true } batch :=
            ⟨hg.count, hg.listed, hg.settled, fun i hi => by
              have hne : i ≠ s.index := fun he => hout (he ▸ hi)
              simpa [Function.update_of_ne hne] using hg.safe i hi⟩
          exact h.moved h.length h.index rfl (hjudged true) (at_closeBatch hg' hidle)

theorem Inv.restatus {t : State} {i : ℕ} {x : Status} (h : Inv calls s) (hlength : t.results.length = calls.length)
    (hindex : t.index ≤ calls.length) (hi : i < calls.length) (hstatus : t.status = Function.update s.status i x)
    (hid : ∀ r, x = .finished r → ∃ call, calls[i]? = some call ∧ r.callId = call.callId)
    (howned : ∀ j, Busy (Function.update s.status i x j) → t.unsafeSeen j = true → t.control = .calling j)
    (hat : At calls t t.control) : Inv calls t where
  length := hlength
  index := hindex
  outside j hj := by
    rw [hstatus, Function.update_of_ne (hi.trans_le hj).ne']
    exact h.outside j hj
  ids j r hr := by
    rw [hstatus] at hr
    by_cases hj : j = i
    · rw [hj, Function.update_self] at hr
      exact hj ▸ hid r hr
    · rw [Function.update_of_ne hj] at hr
      exact h.ids j r hr
  owned j hb := howned j (hstatus ▸ hb)
  stands := hat

theorem Settled.update {n i : ℕ} {x : Status} {c : Control} {u : ℕ → Bool} {time : ℚ} {k m : ℕ} {b : Bool}
    (h : Settled s n) (hi : n ≤ i) :
    Settled ⟨c, k, s.results, m, b, Function.update s.status i x, u, time⟩ n := by
  intro j hj
  obtain ⟨r, hstatus, hresult⟩ := h j hj
  exact ⟨r, (Function.update_of_ne (hj.trans_le hi).ne _ _).trans hstatus, hresult⟩

theorem Idle.update {n i : ℕ} {x : Status} {c : Control} {u : ℕ → Bool} {time : ℚ} {k m : ℕ} {b : Bool}
    {results : List (Option LLMToolResult)} (h : Idle s n) (hi : i < n) :
    Idle ⟨c, k, results, m, b, Function.update s.status i x, u, time⟩ n :=
  fun j hj => (Function.update_of_ne (hi.trans_le hj).ne' _ _).trans (h j hj)

theorem inv_callAlone {time : ℚ} {contextRaises : Bool} (h : Inv calls s) (hc : s.control = .alone) :
    Inv calls (callAlone calls deadline s time contextRaises) := by
  have hat : Quiet s := by simpa [At, hc] using h.stands
  have hpool := h.pooled (by simp [hc])
  unfold callAlone
  split
  case isTrue hlast =>
    exact h.moved h.length h.index rfl hpool
      ⟨hat.elsewhere, filledUp_last hlast, fun hlt => absurd hlast (Nat.not_le.mpr hlt)⟩
  case isFalse hmore =>
    split
    case isTrue =>
      exact h.moved (fillTimeoutResults_length h.length h.index) h.index rfl hpool
        ⟨(hat.timeOut h.room).elsewhere, filledUp_timeOut h.room, fun _ => rfl⟩
    case isFalse =>
      split
      case isTrue => exact h.moved h.length h.index rfl hpool trivial
      case isFalse =>
        have hlt : s.index < calls.length := Nat.not_le.mp hmore
        refine h.restatus h.length h.index hlt rfl (fun r hr => nomatch hr) ?_ ?_
        · intro j hb hu
          by_cases hj : j = s.index
          · rw [hj]
          · rw [Function.update_of_ne hj] at hb
            exact absurd hu (hpool j hb)
        · exact ⟨rfl, hlt, hat.count, hat.settled.update le_rfl, Function.update_self _ _ _,
            (hat.idle.mono (Nat.le_succ _)).update (Nat.lt_succ_self _)⟩

theorem inv_answered {i : ℕ} {call : LLMToolCall} {a : ToolAnswer} (h : Inv calls s)
    (hc : s.control = .calling i) (hcall : calls[i]? = some call) : Inv calls (answered s i (invoke tools call a)) := by
  have hat : At calls s (.calling i) := hc ▸ h.stands
  obtain ⟨rfl, hlt, hcount, hsettled, hrunning, hidle⟩ := hat
  refine h.restatus ((List.length_set ..).trans h.length) hlt hlt rfl ?_ ?_ ?_
  · intro r hr
    exact ⟨call, hcall, Status.finished.inj hr ▸ invoke_callId tools call a⟩
  · intro j hb hu
    by_cases hj : j = s.index
    · simp [hj, Busy] at hb
    · rw [Function.update_of_ne hj] at hb
      have hcalling := hc.symm.trans (h.owned j hb hu)
      exact absurd (Control.calling.inj hcalling).symm hj
  · refine ⟨congrArg (· + 1) hcount, fun j hj => ?_, hidle.update (Nat.lt_succ_self _)⟩
    by_cases hnew : j = s.index
    · subst hnew
      exact ⟨invoke tools call a, by simp [answered], by simp [answered, h.length, hlt]⟩
    · have hold : j < s.index := lt_of_le_of_ne (Nat.lt_succ_iff.mp hj) hnew
      obtain ⟨r, hstatus, hresult⟩ := hsettled j hold
      exact ⟨r, (Function.update_of_ne hnew _ _).trans hstatus, (List.getElem?_set_ne (Ne.symm hnew)).trans hresult⟩

theorem inv_submit {batch todo : List ℕ} {i : ℕ} (h : Inv calls s) (hc : s.control = .submit batch (i :: todo)) :
    Inv calls (submit s batch todo i) := by
  have hat : At calls s (.submit batch (i :: todo)) := hc ▸ h.stands
  obtain ⟨hg, k, hfirst, hlast, htodo, hgiven, hidle⟩ := hat
  have hsub : s.index - k = s.index - (k + 1) + 1 := by omega
  rw [hsub, List.range'_succ] at htodo
  obtain ⟨rfl, htodo⟩ := List.cons.inj htodo
  have hi : i ∈ batch := by
    rw [hg.listed, List.mem_range'_1]
    have := hg.count
    omega
  have hpool := h.pooled (by simp [hc])
  have howned : ∀ j, Busy (Function.update s.status i .queued j) → s.unsafeSeen j ≠ true := by
    intro j hb
    by_cases hj : j = i
    · simp [hj, hg.safe i hi]
    · rw [Function.update_of_ne hj] at hb
      exact hpool j hb
  have hgiven' : ∀ j, s.startedCount ≤ j → j < i + 1 → Function.update s.status i .queued j ≠ .idle := by
    intro j hj hlt
    by_cases hji : j = i
    · simp [hji]
    · rw [Function.update_of_ne hji]
      exact hgiven j hj (lt_of_le_of_ne (Nat.lt_succ_iff.mp hlt) hji)
  have hidle' := hidle.mono (Nat.le_succ i)
  have hbound : i < calls.length := hlast.trans_le h.index
  unfold submit
  split
  case isTrue hnone =>
    have hend : s.index = i + 1 := by
      have hzero := List.range'_eq_nil_iff.mp (htodo.symm.trans hnone)
      omega
    refine h.restatus h.length h.index hbound rfl (fun r hr => nomatch hr) (fun j hb hu => absurd hu (howned j hb)) ?_
    have hcount : s.startedCount + batch.length = s.index := by
      rw [hg.listed, List.length_range']
      exact Nat.add_sub_cancel' hg.count
    exact ⟨hcount, (hidle'.mono hend.ge).update hlast, s.startedCount, hg.count, hg.listed, hg.settled.update hfirst,
      fun j hj hlt => hgiven' j hj (hend ▸ hlt)⟩
  case isFalse hsome =>
    have hmore : i + 1 < s.index := by
      by_contra hle
      have hzero : s.index - (i + 1) = 0 := by omega
      exact hsome (by simpa [hzero] using htodo)
    refine h.restatus h.length h.index hbound rfl (fun r hr => nomatch hr) (fun j hb hu => absurd hu (howned j hb)) ?_
    exact ⟨⟨hg.count, hg.listed, hg.settled.update hfirst, hg.safe⟩, i + 1, Nat.le_succ_of_le hfirst, hmore, htodo,
      hgiven', hidle'.update (Nat.lt_succ_self i)⟩

/-- What a worker does to the calls: a call is idle after it exactly when it was before, and a
result stays. -/
theorem At.worked {f : ℕ → Status} (hidle : ∀ j, f j = .idle ↔ s.status j = .idle)
    (hfinished : ∀ j r, s.status j = .finished r → f j = .finished r) :
    ∀ {c : Control}, (∀ j, c = .calling j → f j = s.status j) → At calls s c → At calls { s with status := f } c := by
  have hsettled {n : ℕ} (h : Settled s n) : Settled { s with status := f } n := by
    intro i hi
    obtain ⟨r, hstatus, hresult⟩ := h i hi
    exact ⟨r, hfinished i r hstatus, hresult⟩
  have hfree {n : ℕ} (h : Idle s n) : Idle { s with status := f } n := fun i hi => (hidle i).mpr (h i hi)
  have hgiven {k n : ℕ} (h : Given s k n) : Given { s with status := f } k n :=
    fun i hi hlt hzero => h i hi hlt ((hidle i).mp hzero)
  have hquiet (h : Quiet s) : Quiet { s with status := f } := ⟨h.count, hsettled h.settled, hfree h.idle⟩
  have hgathered {batch : List ℕ} (h : Gathered s batch) : Gathered { s with status := f } batch :=
    ⟨h.count, h.listed, hsettled h.settled, h.safe⟩
  intro c hcalling h
  cases c with
  | loop => exact hquiet h
  | gather batch => exact ⟨hgathered h.1, hfree h.2⟩
  | submit batch todo =>
    obtain ⟨hg, k, hfirst, hlast, htodo, hk, hrest⟩ := h
    exact ⟨hgathered hg, k, hfirst, hlast, htodo, hgiven hk, hfree hrest⟩
  | collect todo =>
    obtain ⟨hcount, hrest, k, hk, htodo, hdone, hpast⟩ := h
    exact ⟨hcount, hfree hrest, k, hk, htodo, hsettled hdone, hgiven hpast⟩
  | alone => exact hquiet h
  | calling i =>
    obtain ⟨rfl, hlt, hcount, hdone, hrunning, hrest⟩ := h
    exact ⟨rfl, hlt, hcount, hsettled hdone, (hcalling _ rfl).trans hrunning, hfree hrest⟩
  | returned => exact ⟨hquiet h.1, h.2⟩
  | raised => trivial

theorem Inv.inside (h : Inv calls s) {i : ℕ} (hi : s.status i ≠ .idle) : i < calls.length := by
  by_contra hle
  exact hi (h.outside i (Nat.not_lt.mp hle))

theorem inv_worked {i : ℕ} {x : Status} (h : Inv calls s) (hbusy : Busy (s.status i)) (hx : x ≠ .idle)
    (hid : ∀ r, x = .finished r → ∃ call, calls[i]? = some call ∧ r.callId = call.callId)
    (hc : s.control ≠ .calling i) : Inv calls { s with status := Function.update s.status i x } := by
  have hold : s.status i ≠ .idle := fun he => by simp [he, Busy] at hbusy
  refine h.restatus h.length h.index (h.inside hold) rfl hid ?_ (h.stands.worked ?_ ?_ ?_)
  · intro j hb hu
    by_cases hj : j = i
    · exact absurd (h.owned i hbusy (hj ▸ hu)) hc
    · rw [Function.update_of_ne hj] at hb
      exact h.owned j hb hu
  · intro j
    by_cases hj : j = i
    · simp [hj, hx, hold]
    · rw [Function.update_of_ne hj]
  · intro j r hr
    by_cases hj : j = i
    · rw [hj] at hr
      simp [hr, Busy] at hbusy
    · rwa [Function.update_of_ne hj]
  · intro j hj
    have hne : j ≠ i := fun he => hc (he ▸ hj)
    exact Function.update_of_ne hne _ _

theorem inv_collect {i : ℕ} {todo : List ℕ} {r : LLMToolResult} (h : Inv calls s)
    (hc : s.control = .collect (i :: todo)) (hr : s.status i = .finished r) :
    Inv calls { s with results := s.results.set i (some r), control := .collect todo } := by
  have hat : At calls s (.collect (i :: todo)) := hc ▸ h.stands
  obtain ⟨hcount, hidle, k, hk, htodo, hsettled, hgiven⟩ := hat
  have hmore : k < s.index := by
    by_contra hle
    have hzero : s.index - k = 0 := by omega
    simp [hzero] at htodo
  have hsub : s.index - k = s.index - (k + 1) + 1 := by omega
  rw [hsub, List.range'_succ] at htodo
  obtain ⟨rfl, htodo⟩ := List.cons.inj htodo
  refine h.moved ((List.length_set ..).trans h.length) h.index rfl (h.pooled (by simp [hc])) ?_
  refine ⟨hcount, hidle, i + 1, hmore, htodo, fun j hj => ?_, fun j hj hlt => hgiven j (Nat.le_of_succ_le hj) hlt⟩
  by_cases hnew : j = i
  · have hroom : i < s.results.length := hmore.trans_le h.room
    exact ⟨r, hnew ▸ hr, by simp [hnew, hroom]⟩
  · obtain ⟨r', hstatus, hresult⟩ := hsettled j (lt_of_le_of_ne (Nat.lt_succ_iff.mp hj) hnew)
    exact ⟨r', hstatus, (List.getElem?_set_ne (Ne.symm hnew)).trans hresult⟩

theorem inv_collected (h : Inv calls s) (hc : s.control = .collect []) : Inv calls { s with control := .loop } := by
  have hat : At calls s (.collect []) := hc ▸ h.stands
  obtain ⟨hcount, hidle, k, hk, htodo, hsettled, -⟩ := hat
  have hend : s.index - k = 0 := List.range'_eq_nil_iff.mp htodo.symm
  have hall : Settled s s.index := hsettled.mono (by omega)
  exact h.moved h.length h.index rfl (h.pooled (by simp [hc])) ⟨hcount, hall, hidle⟩

variable (tools maxWorkers calls deadline) in
inductive Moves (s : State) : Act → State → Prop where
  | enter {time} (hc : s.control = .loop) : Moves s (.enter time) (enter calls deadline s time)
  | look {time safe contextRaises batch} (hc : s.control = .gather batch) :
    Moves s (.look time safe contextRaises) (look calls deadline s batch time safe contextRaises)
  | refused {batch i todo} (hc : s.control = .submit batch (i :: todo)) :
    Moves s (.submit true) { s with control := .raised }
  | submit {batch i todo} (hc : s.control = .submit batch (i :: todo)) : Moves s (.submit false) (submit s batch todo i)
  | collected (hc : s.control = .collect []) : Moves s .collect { s with control := .loop }
  | collect {i todo r} (hc : s.control = .collect (i :: todo)) (hr : s.status i = .finished r) :
    Moves s .collect { s with results := s.results.set i (some r), control := .collect todo }
  | alone {time contextRaises} (hc : s.control = .alone) :
    Moves s (.alone time contextRaises) (callAlone calls deadline s time contextRaises)
  | answer {a i call} (hc : s.control = .calling i) (hcall : calls[i]? = some call) :
    Moves s (.answer a) (answered s i (invoke tools call a))
  | take {i} (hq : s.status i = .queued) (hroom : running calls s < maxWorkers) :
    Moves s (.take i) { s with status := Function.update s.status i .running }
  | finish {i a call} (hr : s.status i = .running) (hc : s.control ≠ .calling i) (hcall : calls[i]? = some call) :
    Moves s (.finish i a) { s with status := Function.update s.status i (.finished (invoke tools call a)) }

theorem step_cases {a : Act} {t : State} (h : step tools maxWorkers calls deadline s a = some t) :
    Moves tools maxWorkers calls deadline s a t := by
  cases a with
  | enter time =>
    simp only [step, Option.ite_none_right_eq_some, Option.some.injEq] at h
    obtain ⟨hc, rfl⟩ := h
    exact .enter hc
  | look time safe contextRaises =>
    cases hc : s.control with
    | gather batch =>
      simp only [step, hc, Option.some.injEq] at h
      exact h ▸ .look hc
    | _ => simp [step, hc] at h
  | submit raises =>
    cases hc : s.control with
    | submit batch todo =>
      cases todo with
      | nil => simp [step, hc] at h
      | cons i todo =>
        cases raises with
        | true =>
          simp only [step, hc, if_true, Option.some.injEq] at h
          exact h ▸ .refused hc
        | false =>
          simp only [step, hc, Bool.false_eq_true, if_false, Option.some.injEq] at h
          exact h ▸ .submit hc
    | _ => simp [step, hc] at h
  | collect =>
    cases hc : s.control with
    | collect todo =>
      cases todo with
      | nil =>
        simp only [step, hc, Option.some.injEq] at h
        exact h ▸ .collected hc
      | cons i todo =>
        cases hr : s.status i with
        | finished r =>
          simp only [step, hc, hr, Option.some.injEq] at h
          exact h ▸ .collect hc hr
        | _ => simp [step, hc, hr] at h
    | _ => simp [step, hc] at h
  | alone time contextRaises =>
    simp only [step, Option.ite_none_right_eq_some, Option.some.injEq] at h
    obtain ⟨hc, rfl⟩ := h
    exact .alone hc
  | answer a =>
    cases hc : s.control with
    | calling i =>
      simp only [step, hc, Option.map_eq_some_iff] at h
      obtain ⟨call, hcall, rfl⟩ := h
      exact .answer hc hcall
    | _ => simp [step, hc] at h
  | take i =>
    cases hq : s.status i with
    | queued =>
      simp only [step, hq, Option.ite_none_right_eq_some, Option.some.injEq] at h
      obtain ⟨hroom, rfl⟩ := h
      exact .take hq hroom
    | _ => simp [step, hq] at h
  | finish i a =>
    cases hr : s.status i with
    | running =>
      simp only [step, hr, Option.ite_none_left_eq_some, Option.map_eq_some_iff] at h
      obtain ⟨hc, call, hcall, rfl⟩ := h
      exact .finish hr hc hcall
    | _ => simp [step, hr] at h

theorem inv_step {a : Act} {t : State} (h : Inv calls s) (hstep : step tools maxWorkers calls deadline s a = some t) :
    Inv calls t := by
  cases step_cases hstep with
  | enter hc => exact inv_enter h hc
  | look hc => exact inv_look h hc
  | refused hc => exact h.moved h.length h.index rfl (h.pooled (by simp [hc])) trivial
  | submit hc => exact inv_submit h hc
  | collected hc => exact inv_collected h hc
  | collect hc hr => exact inv_collect h hc hr
  | alone hc => exact inv_callAlone h hc
  | answer hc hcall => exact inv_answered h hc hcall
  | take hq _ =>
    refine inv_worked h (by simp [hq, Busy]) (by simp) (fun r hr => nomatch hr) fun hc => ?_
    have hat := hc ▸ h.stands
    obtain ⟨rfl, -, -, -, hrunning, -⟩ := hat
    exact Status.noConfusion (hq.symm.trans hrunning)
  | finish hr hc hcall =>
    exact inv_worked h (by simp [hr, Busy]) (by simp)
      (fun r hid => ⟨_, hcall, Status.finished.inj hid ▸ invoke_callId tools _ _⟩) hc

theorem inv_run {now : ℚ} {acts : List Act} (hrun : run (step tools maxWorkers calls deadline) (start calls now) acts = some s) :
    Inv calls s :=
  run_invariant (fun _ _ _ h hstep => inv_step h hstep) (inv_start now) hrun

end
end EvoHarness.Core.Agent.Scheduler
