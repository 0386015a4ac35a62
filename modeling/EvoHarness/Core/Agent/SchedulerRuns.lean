import Mathlib.Algebra.BigOperators.Group.Finset.Piecewise
import EvoHarness.Core.Agent.Scheduler

/-! Runs of the tool scheduler: they are bounded, none gets stuck, and a run that returns has one
result for every call. -/
namespace EvoHarness.Core.Agent.Scheduler
open PyText Runs
variable {tools : List AgentTool} {maxWorkers : ℕ} {calls : List LLMToolCall} {deadline : ℚ} {s t : State}

def weight : Status → ℕ
  | .idle => 3
  | .queued => 2
  | .running => 1
  | .finished _ => 0

def rank : Control → ℕ
  | .loop => 3
  | .gather _ => 2
  | .submit _ _ => 1
  | .collect todo => 4 + todo.length
  | .alone => 1
  | .calling _ => 0
  | .returned => 0
  | .raised => 0

variable (calls) in
def ahead (s : State) : ℕ := calls.length - s.index + ∑ i ∈ Finset.range calls.length, weight (s.status i)

variable (calls) in
def left (s : State) : ℕ := ahead calls s * (calls.length + 6) + rank s.control

theorem weight_update {f : ℕ → Status} {n i : ℕ} (hi : i < n) (x : Status) :
    (∑ j ∈ Finset.range n, weight (Function.update f i x j)) + weight (f i) =
      (∑ j ∈ Finset.range n, weight (f j)) + weight x := by
  have hmem : i ∈ Finset.range n := Finset.mem_range.mpr hi
  have hcomp : ∀ j, weight (Function.update f i x j) = Function.update (fun j => weight (f j)) i (weight x) j := by
    intro j
    by_cases hj : j = i <;> simp [hj]
  simp only [hcomp, Finset.sum_update_of_mem hmem]
  have hsplit := Finset.sum_eq_add_sum_sdiff_singleton_of_mem hmem fun j => weight (f j)
  omega

theorem left_lt_of_ahead (hahead : ahead calls t < ahead calls s) (hrank : rank t.control ≤ calls.length + 5) :
    left calls t < left calls s := by
  have hround : (ahead calls t + 1) * (calls.length + 6) ≤ ahead calls s * (calls.length + 6) :=
    Nat.mul_le_mul_right _ hahead
  rw [Nat.succ_mul] at hround
  unfold left
  omega

theorem left_lt_of_rank (hahead : ahead calls t = ahead calls s) (hrank : rank t.control < rank s.control) :
    left calls t < left calls s := by
  unfold left
  rw [hahead]
  omega

theorem Inv.rank_le (h : Inv calls s) : rank s.control ≤ calls.length + 5 := by
  cases hc : s.control with
  | collect todo =>
    have hat : At calls s (.collect todo) := hc ▸ h.stands
    obtain ⟨-, -, k, -, rfl, -⟩ := hat
    have := h.index
    simp only [rank, List.length_range']
    omega
  | _ => simp [rank]

theorem ahead_lt_of_status {i : ℕ} {x : Status} (hi : i < calls.length) (hindex : s.index ≤ t.index)
    (hstatus : t.status = Function.update s.status i x) (hx : weight x < weight (s.status i)) :
    ahead calls t < ahead calls s := by
  have hupdate := weight_update (f := s.status) hi x
  unfold ahead
  rw [hstatus]
  omega

theorem enter_ahead {time : ℚ} :
    ahead calls (enter calls deadline s time) = ahead calls s ∧ rank (enter calls deadline s time).control ≤ 2 := by
  unfold enter
  split
  · exact ⟨rfl, Nat.zero_le _⟩
  · split
    · exact ⟨rfl, Nat.zero_le _⟩
    · exact ⟨rfl, le_rfl⟩

theorem closeBatch_ahead {batch : List ℕ} :
    ahead calls (closeBatch s batch) = ahead calls s ∧ rank (closeBatch s batch).control ≤ 1 := by
  refine ⟨rfl, ?_⟩
  by_cases hempty : batch = [] <;> simp [closeBatch, hempty, rank]

theorem look_ahead {batch : List ℕ} {time : ℚ} {safe contextRaises : Bool} :
    ahead calls (look calls deadline s batch time safe contextRaises) < ahead calls s ∨
      (ahead calls (look calls deadline s batch time safe contextRaises) = ahead calls s ∧
        rank (look calls deadline s batch time safe contextRaises).control ≤ 1) := by
  unfold look
  split
  case isTrue => exact .inr closeBatch_ahead
  case isFalse hmore =>
    split
    case isTrue => exact .inr closeBatch_ahead
    case isFalse =>
      split
      case isTrue => exact .inr ⟨rfl, Nat.zero_le _⟩
      case isFalse =>
        split
        case isTrue =>
          refine .inl ?_
          simp only [ahead]
          omega
        case isFalse => exact .inr closeBatch_ahead

theorem callAlone_ahead {time : ℚ} {contextRaises : Bool} (hidle : s.status s.index = .idle) :
    ahead calls (callAlone calls deadline s time contextRaises) < ahead calls s ∨
      (ahead calls (callAlone calls deadline s time contextRaises) = ahead calls s ∧
        rank (callAlone calls deadline s time contextRaises).control = 0) := by
  unfold callAlone
  split
  case isTrue => exact .inr ⟨rfl, rfl⟩
  case isFalse hmore =>
    split
    case isTrue => exact .inr ⟨rfl, rfl⟩
    case isFalse =>
      split
      case isTrue => exact .inr ⟨rfl, rfl⟩
      case isFalse => exact .inl (ahead_lt_of_status (Nat.not_le.mp hmore) le_rfl rfl (by simp [hidle, weight]))

theorem submit_ahead {batch todo : List ℕ} {i : ℕ} (hi : i < calls.length) (hidle : s.status i = .idle) :
    ahead calls (submit s batch todo i) < ahead calls s := by
  unfold submit
  split <;> exact ahead_lt_of_status hi le_rfl rfl (by simp [hidle, weight])

theorem Inv.next (h : Inv calls s) {batch todo : List ℕ} {i : ℕ} (hc : s.control = .submit batch (i :: todo)) :
    i < calls.length ∧ s.status i = .idle := by
  have hat : At calls s (.submit batch (i :: todo)) := hc ▸ h.stands
  obtain ⟨-, k, -, hlast, htodo, -, hidle⟩ := hat
  have hsub : s.index - k = s.index - (k + 1) + 1 := by omega
  rw [hsub, List.range'_succ] at htodo
  obtain ⟨rfl, -⟩ := List.cons.inj htodo
  exact ⟨hlast.trans_le h.index, hidle i le_rfl⟩

theorem step_left {a : Act} (h : Inv calls s) (hstep : step tools maxWorkers calls deadline s a = some t) :
    left calls t < left calls s := by
  have hrank := (inv_step h hstep).rank_le
  cases step_cases hstep with
  | enter hc =>
    obtain ⟨hahead, hlow⟩ := @enter_ahead calls deadline s _
    exact left_lt_of_rank hahead (by rw [hc]; exact Nat.lt_succ_of_le hlow)
  | look hc =>
    cases look_ahead with
    | inl hlt => exact left_lt_of_ahead hlt hrank
    | inr hend => exact left_lt_of_rank hend.1 (by rw [hc]; exact Nat.lt_succ_of_le hend.2)
  | refused hc => exact left_lt_of_rank rfl (by simp [hc, rank])
  | submit hc =>
    obtain ⟨hi, hidle⟩ := h.next hc
    exact left_lt_of_ahead (submit_ahead hi hidle) hrank
  | collected hc => exact left_lt_of_rank rfl (by simp [hc, rank])
  | collect hc hr => exact left_lt_of_rank rfl (by simp [hc, rank])
  | alone hc =>
    have hat : Quiet s := by simpa [At, hc] using h.stands
    cases callAlone_ahead (hat.idle s.index le_rfl) with
    | inl hlt => exact left_lt_of_ahead hlt hrank
    | inr hend => exact left_lt_of_rank hend.1 (by rw [hend.2, hc]; exact Nat.one_pos)
  | answer hc hcall =>
    have hat := hc ▸ h.stands
    obtain ⟨rfl, hlt, -, -, hrunning, -⟩ := hat
    exact left_lt_of_ahead (ahead_lt_of_status hlt (Nat.le_succ _) rfl (by simp [hrunning, weight])) hrank
  | take hq _ =>
    have hi := h.inside (fun hidle => Status.noConfusion (hq.symm.trans hidle))
    exact left_lt_of_ahead (ahead_lt_of_status hi le_rfl rfl (by simp [hq, weight])) hrank
  | finish hr _ _ =>
    have hi := h.inside (fun hidle => Status.noConfusion (hr.symm.trans hidle))
    exact left_lt_of_ahead (ahead_lt_of_status hi le_rfl rfl (by simp [hr, weight])) hrank

variable (calls) in
def bound : ℕ := calls.length * 4 * (calls.length + 6) + 3

theorem left_start (now : ℚ) : left calls (start calls now) = bound calls := by
  simp [left, ahead, start, weight, rank, bound]
  ring

theorem run_bounded {now : ℚ} {acts : List Act}
    (hrun : run (step tools maxWorkers calls deadline) (start calls now) acts = some s) : acts.length ≤ bound calls := by
  have hlength := run_length (fun _ _ _ h hstep => ⟨inv_step h hstep, step_left h hstep⟩) (inv_start now) hrun
  rw [left_start] at hlength
  omega

theorem calls_get {i : ℕ} (hi : i < calls.length) : calls[i]? = some calls[i] := List.getElem?_eq_getElem hi

theorem running_pos (h : 0 < running calls s) : ∃ i, i < calls.length ∧ s.status i = .running := by
  obtain ⟨i, hi⟩ := List.exists_mem_of_length_pos h
  obtain ⟨hrange, hrunning⟩ := List.mem_filter.mp hi
  refine ⟨i, List.mem_range.mp hrange, ?_⟩
  cases hstatus : s.status i with
  | running => rfl
  | _ => simp [hstatus, isRunning] at hrunning

def Raises : Act → Prop
  | .look _ _ contextRaises => contextRaises = true
  | .submit raises => raises = true
  | .alone _ contextRaises => contextRaises = true
  | _ => False

variable (tools maxWorkers calls deadline) in
def GoesOn (s : State) : Prop := ∃ a, ¬Raises a ∧ (step tools maxWorkers calls deadline s a).isSome = true

theorem worker_goes_on (hw : 1 ≤ maxWorkers) (hc : ∀ i, s.control ≠ .calling i) {i : ℕ} (hi : i < calls.length)
    (hbusy : Busy (s.status i)) : GoesOn tools maxWorkers calls deadline s := by
  have hfinish {j : ℕ} (hj : j < calls.length) (hr : s.status j = .running) :
      GoesOn tools maxWorkers calls deadline s := by
    refine ⟨.finish j .notResult, not_false, ?_⟩
    simp [step, hr, hc j, hj]
  cases hstatus : s.status i with
  | idle => simp [hstatus, Busy] at hbusy
  | queued =>
    by_cases hroom : running calls s < maxWorkers
    · refine ⟨.take i, not_false, ?_⟩
      simp [step, hstatus, hroom]
    · have hpos : 0 < running calls s := by omega
      obtain ⟨j, hj, hr⟩ := running_pos hpos
      exact hfinish hj hr
  | running => exact hfinish hi hstatus
  | finished r => simp [hstatus, Busy] at hbusy

def Over (s : State) : Prop := s.control = .returned ∨ s.control = .raised

theorem goes_on (h : Inv calls s) (hw : 1 ≤ maxWorkers) (hover : ¬Over s) :
    GoesOn tools maxWorkers calls deadline s := by
  cases hc : s.control with
  | loop => exact ⟨.enter 0, not_false, by simp [step, hc]⟩
  | gather batch => exact ⟨.look 0 true false, Bool.false_ne_true, by simp [step, hc]⟩
  | submit batch todo =>
    have hat : At calls s (.submit batch todo) := hc ▸ h.stands
    obtain ⟨-, k, -, hlast, htodo, -⟩ := hat
    have hsub : s.index - k = s.index - (k + 1) + 1 := by omega
    rw [hsub, List.range'_succ] at htodo
    exact ⟨.submit false, Bool.false_ne_true, by simp [step, hc, htodo]⟩
  | collect todo =>
    cases todo with
    | nil => exact ⟨.collect, not_false, by simp [step, hc]⟩
    | cons i todo =>
      have hat : At calls s (.collect (i :: todo)) := hc ▸ h.stands
      obtain ⟨-, -, k, -, htodo, -, hgiven⟩ := hat
      have hmem : i ∈ List.range' k (s.index - k) := htodo ▸ List.mem_cons_self
      obtain ⟨hk, hlt⟩ := List.mem_range'_1.mp hmem
      have hstatus := hgiven i hk (by omega)
      have hi := h.inside hstatus
      cases hr : s.status i with
      | idle => exact absurd hr hstatus
      | finished r => exact ⟨.collect, not_false, by simp [step, hc, hr]⟩
      | queued => exact worker_goes_on hw (by simp [hc]) hi (by simp [hr, Busy])
      | running => exact worker_goes_on hw (by simp [hc]) hi (by simp [hr, Busy])
  | alone => exact ⟨.alone 0 false, Bool.false_ne_true, by simp [step, hc]⟩
  | calling i =>
    have hat : At calls s (.calling i) := hc ▸ h.stands
    obtain ⟨rfl, hlt, -⟩ := hat
    exact ⟨.answer .notResult, not_false, by simp [step, hc, hlt]⟩
  | returned => exact absurd (.inl hc) hover
  | raised => exact absurd (.inr hc) hover

theorem closeBatch_not_raised {batch : List ℕ} : (closeBatch s batch).control ≠ .raised := by
  by_cases hempty : batch = [] <;> simp [closeBatch, hempty]

theorem raises_of_step {a : Act} (hstep : step tools maxWorkers calls deadline s a = some t)
    (hs : s.control ≠ .raised) (ht : t.control = .raised) : Raises a := by
  cases step_cases hstep with
  | enter hc =>
    unfold enter at ht
    split at ht
    · exact Control.noConfusion ht
    · split at ht <;> exact Control.noConfusion ht
  | look hc =>
    unfold look at ht
    split at ht
    · exact absurd ht closeBatch_not_raised
    · split at ht
      · exact absurd ht closeBatch_not_raised
      · split at ht
        case isTrue h => exact h
        case isFalse =>
          split at ht
          · exact Control.noConfusion ht
          · exact absurd ht closeBatch_not_raised
  | refused hc => rfl
  | submit hc =>
    unfold submit at ht
    split at ht <;> exact Control.noConfusion ht
  | collected hc => exact Control.noConfusion ht
  | collect hc hr => exact Control.noConfusion ht
  | alone hc =>
    unfold callAlone at ht
    split at ht
    · exact Control.noConfusion ht
    · split at ht
      · exact Control.noConfusion ht
      · split at ht
        case isTrue h => exact h
        case isFalse => exact Control.noConfusion ht
  | answer hc hcall => exact Control.noConfusion ht
  | take hq _ => exact absurd ht hs
  | finish hr _ _ => exact absurd ht hs

theorem raises_of_run {acts : List Act} (hrun : run (step tools maxWorkers calls deadline) s acts = some t)
    (hs : s.control ≠ .raised) (ht : t.control = .raised) : ∃ a ∈ acts, Raises a := by
  induction acts generalizing s with
  | nil => exact absurd (Option.some.inj hrun ▸ ht) hs
  | cons a acts ih =>
    obtain ⟨u, hu, hrest⟩ := run_cons.mp hrun
    by_cases hraised : u.control = .raised
    · exact ⟨a, List.mem_cons_self, raises_of_step hu hs hraised⟩
    · obtain ⟨b, hb, hraises⟩ := ih hrest hraised
      exact ⟨b, List.mem_cons_of_mem a hb, hraises⟩

def Act.reading : Act → Option ℚ
  | .enter time => some time
  | .look time _ _ => some time
  | .alone time _ => some time
  | _ => none

def forward (s : State) (a : Act) : Bool := a.reading.all fun time => s.now ≤ time

variable (calls deadline) in
/-- Once the scheduler has timed out, it goes on to the end without starting a call. -/
def Late (s : State) : Prop :=
  s.timedOut = true →
    deadline ≤ s.now ∧ s.index < calls.length ∧ (∀ batch, s.control ≠ .gather batch) ∧ ∀ i, s.control ≠ .calling i

theorem late_start (now : ℚ) : Late calls deadline (start calls now) := fun h => nomatch h

theorem Late.closeBatch {batch : List ℕ} (hnow : s.timedOut = true → deadline ≤ s.now ∧ s.index < calls.length) :
    Late calls deadline (closeBatch s batch) := by
  intro htimed
  obtain ⟨hdeadline, hmore⟩ := hnow htimed
  refine ⟨hdeadline, hmore, ?_⟩
  by_cases hempty : batch = [] <;> simp [Scheduler.closeBatch, hempty]

theorem late_step {a : Act} (h : Late calls deadline s) (hforward : forward s a = true)
    (hstep : step tools maxWorkers calls deadline s a = some t) : Late calls deadline t := by
  cases step_cases hstep with
  | enter hc =>
    have hnow := of_decide_eq_true hforward
    unfold enter
    split
    case isTrue hlast => exact fun htimed => absurd (h htimed).2.1 (Nat.not_lt.mpr hlast)
    case isFalse hmore =>
      split
      case isTrue hdeadline => exact fun _ => ⟨hdeadline, Nat.not_le.mp hmore, by simp, by simp⟩
      case isFalse hdeadline => exact fun htimed => absurd ((h htimed).1.trans hnow) hdeadline
  | look hc =>
    have htimed : s.timedOut ≠ true := fun htimed => (h htimed).2.2.1 _ hc
    unfold look
    split
    case isTrue => exact Late.closeBatch fun h => absurd h htimed
    case isFalse hmore =>
      split
      case isTrue hdeadline => exact Late.closeBatch fun _ => ⟨hdeadline, Nat.not_le.mp hmore⟩
      case isFalse =>
        split
        case isTrue => exact fun h => absurd h htimed
        case isFalse =>
          split
          case isTrue => exact fun h => absurd h htimed
          case isFalse => exact Late.closeBatch fun h => absurd h htimed
  | refused hc => exact fun htimed => ⟨(h htimed).1, (h htimed).2.1, by simp, by simp⟩
  | submit hc =>
    unfold submit
    split <;> exact fun htimed => ⟨(h htimed).1, (h htimed).2.1, by simp, by simp⟩
  | collected hc => exact fun htimed => ⟨(h htimed).1, (h htimed).2.1, by simp, by simp⟩
  | collect hc hr => exact fun htimed => ⟨(h htimed).1, (h htimed).2.1, by simp, by simp⟩
  | alone hc =>
    have hnow := of_decide_eq_true hforward
    unfold callAlone
    split
    case isTrue hlast => exact fun htimed => absurd (h htimed).2.1 (Nat.not_lt.mpr hlast)
    case isFalse hmore =>
      split
      case isTrue hdeadline => exact fun _ => ⟨hdeadline, Nat.not_le.mp hmore, by simp, by simp⟩
      case isFalse hdeadline =>
        have htimed : s.timedOut ≠ true := fun htimed => hdeadline ((h htimed).1.trans hnow)
        split <;> exact fun h => absurd h htimed
  | answer hc hcall =>
    have htimed : s.timedOut ≠ true := fun htimed => (h htimed).2.2.2 _ hc
    exact fun h => absurd h htimed
  | take hq _ => exact h
  | finish hr _ _ => exact h

theorem late_run {now : ℚ} {acts : List Act}
    (hrun : run (step tools maxWorkers calls deadline) (start calls now) acts = some s)
    (hforward : Meets (step tools maxWorkers calls deadline) (fun s a => forward s a) (start calls now) acts) : Late calls deadline s :=
  everywhere_last (everywhere_of_meets (fun _ _ _ h hok hstep => late_step h hok hstep) (late_start now) hforward) hrun

def scheduled (s : State) : Except Text ScheduledToolResults :=
  if s.results.any (·.isNone) then .error "tool scheduler left calls without results".toList
  else .ok ⟨s.results.filterMap id, s.startedCount, s.timedOut⟩

/-- A call that is unsafe or on the coordinating thread is busy alone: the calls before it have
finished and those behind it have not started. -/
def Exclusive (s : State) : Prop :=
  ∀ i, Busy (s.status i) → (s.unsafeSeen i = true ∨ s.control = .calling i) →
    (∀ j < i, ∃ r, s.status j = .finished r) ∧ ∀ j, i < j → s.status j = .idle

variable (calls) in
structure Executed (s : State) (q : ScheduledToolResults) : Prop where
  ids : q.results.map (·.callId) = calls.map (·.callId)
  count : q.startedCount ≤ calls.length
  started : ∀ i < q.startedCount, ∃ r, s.status i = .finished r ∧ q.results[i]? = some r
  others : ∀ i call, q.startedCount ≤ i → calls[i]? = some call →
    s.status i = .idle ∧ q.results[i]? = some (timeoutResult call)
  timedOut : q.startedCount < calls.length → q.timedOut = true

theorem Inv.exclusive (h : Inv calls s) : Exclusive s := by
  intro i hbusy halone
  have hc : s.control = .calling i := halone.elim (h.owned i hbusy) id
  have hat : At calls s (.calling i) := hc ▸ h.stands
  obtain ⟨rfl, -, -, hsettled, -, hidle⟩ := hat
  refine ⟨fun j hj => ?_, fun j hj => hidle j hj⟩
  obtain ⟨r, hstatus, -⟩ := hsettled j hj
  exact ⟨r, hstatus⟩

theorem map_some_filterMap {α : Type} {l : List (Option α)} (h : ∀ o ∈ l, o.isNone = false) :
    (l.filterMap id).map some = l := by
  induction l with
  | nil => rfl
  | cons o l ih =>
    cases o with
    | none => exact absurd (h none List.mem_cons_self) (by simp)
    | some a => simpa using ih fun o ho => h o (List.mem_cons_of_mem _ ho)

theorem Inv.answered (h : Inv calls s) (hc : s.control = .returned) {i : ℕ} {call : LLMToolCall}
    (hcall : calls[i]? = some call) : ∃ r, s.results[i]? = some (some r) ∧ r.callId = call.callId := by
  have hat : At calls s .returned := hc ▸ h.stands
  obtain ⟨hquiet, hfilled, -⟩ := hat
  by_cases hi : i < s.index
  · obtain ⟨r, hstatus, hresult⟩ := hquiet.settled i hi
    obtain ⟨call', hcall', hid⟩ := h.ids i r hstatus
    cases hcall.symm.trans hcall'
    exact ⟨r, hresult, hid⟩
  · exact ⟨_, hfilled i call (Nat.not_lt.mp hi) hcall, makeToolError_callId ..⟩

theorem Inv.executed (h : Inv calls s) (hc : s.control = .returned) :
    ∃ q, scheduled s = .ok q ∧ Executed calls s q ∧ q.startedCount = s.index ∧ q.timedOut = s.timedOut := by
  have hat : At calls s .returned := hc ▸ h.stands
  obtain ⟨hquiet, hfilled, htimed⟩ := hat
  have hfull : ∀ o ∈ s.results, o.isNone = false := by
    intro o ho
    obtain ⟨i, hi, rfl⟩ := List.getElem_of_mem ho
    obtain ⟨r, hresult, -⟩ := h.answered hc (calls_get (h.length ▸ hi))
    rw [List.getElem?_eq_getElem hi] at hresult
    simp [Option.some.inj hresult]
  have hall := map_some_filterMap hfull
  have hresults (i : ℕ) (r : LLMToolResult) (hr : s.results[i]? = some (some r)) :
      (s.results.filterMap id)[i]? = some r := by
    rw [← hall, List.getElem?_map, Option.map_eq_some_iff] at hr
    obtain ⟨r', hr', he⟩ := hr
    exact Option.some.inj he ▸ hr'
  have hnone : s.results.any (·.isNone) = false := List.any_eq_false.mpr fun o ho => by simp [hfull o ho]
  refine ⟨⟨s.results.filterMap id, s.startedCount, s.timedOut⟩, by simp [scheduled, hnone], ?_, hquiet.count, rfl⟩
  constructor
  case ids =>
    have hlength : (s.results.filterMap id).length = calls.length := by
      have := congrArg List.length hall
      rw [List.length_map] at this
      exact this.trans h.length
    apply List.ext_getElem?
    intro i
    rw [List.getElem?_map, List.getElem?_map]
    by_cases hi : i < calls.length
    · obtain ⟨r, hresult, hid⟩ := h.answered hc (calls_get hi)
      rw [hresults i r hresult, calls_get hi]
      exact congrArg some hid
    · have hi := Nat.not_lt.mp hi
      rw [List.getElem?_eq_none (hlength.trans_le hi), List.getElem?_eq_none hi]
      rfl
  case count => exact hquiet.count.trans_le h.index
  case started =>
    intro i hi
    obtain ⟨r, hstatus, hresult⟩ := hquiet.settled i (hquiet.count ▸ hi)
    exact ⟨r, hstatus, hresults i r hresult⟩
  case others =>
    intro i call hi hcall
    have hi : s.index ≤ i := hquiet.count ▸ hi
    exact ⟨hquiet.idle i hi, hresults i _ (hfilled i call hi hcall)⟩
  case timedOut =>
    intro hlt
    exact htimed (hquiet.count ▸ hlt)

/-- Every run is bounded, goes on until it is over, keeps unsafe calls alone and raises only what it
heard. When it returns, there is one result for each call, in order and under its id: of the first
`startedCount` calls, which ran, their own, and of the others, which did not, the timeout. -/
theorem executes_in_order {now : ℚ} {acts : List Act} (hw : 1 ≤ maxWorkers)
    (hrun : run (step tools maxWorkers calls deadline) (start calls now) acts = some s) :
    acts.length ≤ bound calls ∧ (¬Over s → GoesOn tools maxWorkers calls deadline s) ∧ Exclusive s ∧
      (s.control = .raised → ∃ a ∈ acts, Raises a) ∧
      (s.control = .returned → ∃ q, scheduled s = .ok q ∧ Executed calls s q ∧
        (Meets (step tools maxWorkers calls deadline) (fun s a => forward s a) (start calls now) acts →
          (q.timedOut = true ↔ q.startedCount < calls.length))) := by
  have h := inv_run hrun
  refine ⟨run_bounded hrun, goes_on h hw, h.exclusive, raises_of_run hrun (by simp [start]), fun hc => ?_⟩
  obtain ⟨q, hq, hexecuted, hcount, htimed⟩ := h.executed hc
  refine ⟨q, hq, hexecuted, fun hforward => ⟨fun hlate => ?_, hexecuted.timedOut⟩⟩
  rw [hcount]
  exact (late_run hrun hforward (htimed ▸ hlate)).2.1

def twoCalls : List LLMToolCall := [⟨"a".toList, "read".toList, []⟩, ⟨"b".toList, "write".toList, []⟩]

def inTime : List Act :=
  [.enter 0, .look 1 true false, .look 2 false false, .submit false, .take 0, .finish 0 .notResult, .collect,
    .collect, .enter 11]

theorem inTime_runs :
    (run (step [] 2 twoCalls 10) (start twoCalls 0) inTime).map (fun s => (s.control, s.startedCount, s.timedOut)) =
      some (.returned, 1, true) := by
  decide

theorem executes_two_in_order :
    ∃ s q, run (step [] 2 twoCalls 10) (start twoCalls 0) inTime = some s ∧ scheduled s = .ok q ∧
      Executed twoCalls s q ∧ (q.timedOut = true ↔ q.startedCount < 2) := by
  obtain ⟨s, hrun, hend⟩ := Option.map_eq_some_iff.mp inTime_runs
  have hc : s.control = .returned := congrArg Prod.fst hend
  have hmeets : Meets (step [] 2 twoCalls 10) (fun s a => forward s a) (start twoCalls 0) inTime :=
    meets_of_check (by decide)
  obtain ⟨q, hq, hexecuted, htimed⟩ := (executes_in_order (by decide) hrun).2.2.2.2 hc
  exact ⟨s, q, hrun, hq, hexecuted, htimed hmeets⟩

/-- The deadline passes in the inner loop, and the clock goes back before it is read again. -/
def goesBack : List Act := [.enter 0, .look 10 true false, .alone 0 false, .answer .notResult, .enter 0]

def oneCall : List LLMToolCall := [⟨"a".toList, "read".toList, []⟩]

theorem goesBack_runs :
    (run (step [] 1 oneCall 10) (start oneCall 0) goesBack).map (fun s => (s.control, s.startedCount, s.timedOut)) =
      some (.returned, 1, true) := by
  decide

theorem timed_out_and_all_started :
    ¬∀ (tools : List AgentTool) (maxWorkers : ℕ) (calls : List LLMToolCall) (deadline now : ℚ) (acts : List Act)
      (s : State), 1 ≤ maxWorkers → run (step tools maxWorkers calls deadline) (start calls now) acts = some s →
      s.control = .returned → (s.timedOut = true ↔ s.startedCount < calls.length) := by
  intro hall
  obtain ⟨s, hrun, hend⟩ := Option.map_eq_some_iff.mp goesBack_runs
  have hc : s.control = .returned := congrArg Prod.fst hend
  have hcount : s.startedCount = 1 := congrArg (fun e => e.2.1) hend
  have htimed : s.timedOut = true := congrArg (fun e => e.2.2) hend
  have hmore := (hall [] 1 oneCall 10 0 goesBack s le_rfl hrun hc).mp htimed
  rw [hcount] at hmore
  exact lt_irrefl 1 hmore

end EvoHarness.Core.Agent.Scheduler
