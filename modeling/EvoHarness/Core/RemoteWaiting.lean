import EvoHarness.Core.Remote
import Mathlib.Tactic.Linarith

/-! How long one call of the remote grader sleeps. -/
namespace EvoHarness.Core.Remote
open PyText Hoare Evaluation

def Net.slept (w : Net) : ℚ := (w.asked.map Ask.slept).sum

structure Bounded (cfg : RemoteEvalConfig) (w : Net) : Prop where
  forward : ∀ a ∈ w.asked, a.delay.Forward
  near : ∀ a ∈ w.asked, ∀ d ∈ a.deadline, a.clock + a.slept ≤ d + cfg.pollBackoffCapS
  total : w.slept ≤ cfg.maxAttempts * (cfg.jobTimeoutS + 2 * cfg.pollBackoffCapS)

/-- A delay that can be slept, or is refused for its length, and does not pass the cap. -/
def Permitted (cfg : RemoteEvalConfig) (v : FloatValue) : Prop :=
  v.Forward ∧ ∀ q, v = .finite q → refused v = none → q ≤ cfg.pollBackoffCapS

def Harmless (py : Builtins) (cfg : RemoteEvalConfig) (h : Text) : Prop :=
  h = [] ∨ ∀ v, py.float h = some v → Permitted cfg v

/-- The headers `Retry-After` of a service are among these. -/
def Traffic.Heeds (H : Set Text) (t : Traffic) : Prop :=
  ∀ i, ∀ h ∈ header (t.answers i).answer.headers "Retry-After".toList, h ∈ H

section
variable {py : Builtins} {cfg : RemoteEvalConfig} {H : Set Text} {limit more base deadline wait : ℚ}

structure Sleeps (H : Set Text) (cfg : RemoteEvalConfig) (limit : ℚ) (w : Net) : Prop where
  heeds : w.traffic.Heeds H
  forward : ∀ a ∈ w.asked, a.delay.Forward
  near : ∀ a ∈ w.asked, ∀ d ∈ a.deadline, a.clock + a.slept ≤ d + cfg.pollBackoffCapS
  slept : w.slept ≤ limit

theorem Sleeps.mono {w : Net} (h : Sleeps H cfg limit w) (hl : limit ≤ more) : Sleeps H cfg more w :=
  ⟨h.heeds, h.forward, h.near, h.slept.trans hl⟩

theorem slept_le_cap {a : Ask} (hcap : 0 ≤ cfg.pollBackoffCapS) (h : Permitted cfg a.delay) :
    a.slept ≤ cfg.pollBackoffCapS := by
  unfold Ask.slept
  split
  · rename_i q hq
    split
    · rename_i hs
      exact h.2 q hq (hq ▸ hs)
    · exact hcap
  · exact hcap

theorem slept_ask (v : FloatValue) (D : Option ℚ) (w : Net) :
    (w.ask v D).slept = w.slept + Ask.slept ⟨v, w.clock, D⟩ := by
  simp only [Net.slept, Net.ask, List.map_append, List.sum_append, List.map_cons, List.map_nil, List.sum_cons,
    List.sum_nil, add_zero]

theorem Sleeps.ask {w : Net} {v : FloatValue} {D : Option ℚ} (h : Sleeps H cfg limit w)
    (hcap : 0 ≤ cfg.pollBackoffCapS) (hv : Permitted cfg v) (hD : ∀ d ∈ D, w.clock ≤ d)
    (hs : w.slept + cfg.pollBackoffCapS ≤ more) : Sleeps H cfg more (w.ask v D) := by
  have hle : Ask.slept ⟨v, w.clock, D⟩ ≤ cfg.pollBackoffCapS := slept_le_cap hcap hv
  refine ⟨h.heeds, ?_, ?_, ?_⟩
  · intro a ha
    obtain ha | rfl := List.mem_append.mp ha |>.imp_right List.mem_singleton.mp
    · exact h.forward a ha
    · exact hv.1
  · intro a ha d hd
    obtain ha | rfl := List.mem_append.mp ha |>.imp_right List.mem_singleton.mp
    · exact h.near a ha d hd
    · have hc := hD d hd
      exact add_le_add hc hle
  · rw [slept_ask]
    linarith

theorem replyOf_headers {step : Step} {a : Answer} {reply : HttpReply} (h : replyOf step a = .ok reply) :
    reply.headers = a.headers := by
  unfold replyOf at h
  split at h
  · exact nomatch h
  · rename_i r hr
    have heq : reply = r := by
      unfold checkStatus protocolError at h
      split at h
      · exact nomatch h
      · split at h
        · exact nomatch h
        · split at h
          · exact nomatch h
          · exact (Except.ok.inj h).symm
    rw [heq]
    unfold urllibTransport at hr
    split at hr
    all_goals cases hr <;> rfl

/-- During a poll, what was slept since `base` fits in the time since the poll began. -/
structure Polling (H : Set Text) (cfg : RemoteEvalConfig) (base deadline : ℚ) (w : Net) : Prop where
  sleeps : Sleeps H cfg (base + (cfg.jobTimeoutS + cfg.pollBackoffCapS)) w
  clock : w.slept + deadline ≤ base + cfg.jobTimeoutS + w.clock

theorem Sleeps.receive {w : Net} (h : Sleeps H cfg limit w) (step : Step) : Sleeps H cfg limit (w.receive step) :=
  ⟨h.heeds, h.forward, h.near, h.slept⟩

theorem request_sleeps (step : Step) :
    Triple (Sleeps H cfg limit) (request step) (fun _ => Sleeps H cfg limit) (Sleeps H cfg limit) := by
  intro w hw
  unfold request
  cases replyOf step (w.traffic.answers w.position).answer with
  | ok reply => exact hw.receive step
  | error e => exact hw.receive step

theorem request_polling (step : Step) :
    Triple (Polling H cfg base deadline) (request step)
      (fun reply w => (∀ h ∈ header reply.headers "Retry-After".toList, h ∈ H) ∧ Polling H cfg base deadline w)
      (Sleeps H cfg (base + (cfg.jobTimeoutS + cfg.pollBackoffCapS))) := by
  intro w hw
  unfold request
  cases hr : replyOf step (w.traffic.answers w.position).answer with
  | error e => exact hw.sleeps.receive step
  | ok reply =>
    refine ⟨?_, hw.sleeps.receive step, ?_⟩
    · intro h hh
      rw [replyOf_headers hr] at hh
      exact hw.sleeps.heeds w.position h hh
    · have hc := hw.clock
      have ht := (w.traffic.answers w.position).took_nonneg
      simp only [Net.receive, Net.slept] at hc ⊢
      linarith

theorem permitted_wait (hpos : 0 < wait) (hle : wait ≤ cfg.pollBackoffCapS) : Permitted cfg (.finite wait) := by
  refine ⟨hpos.le, ?_⟩
  intro q hq _
  cases hq
  exact hle

theorem permitted_delay (hH : ∀ h ∈ H, Harmless py cfg h) {headers : List (Text × Text)}
    (hh : ∀ h ∈ header headers "Retry-After".toList, h ∈ H) (hpos : 0 < wait) (hle : wait ≤ cfg.pollBackoffCapS) :
    Permitted cfg ((retryAfter py headers).getD (.finite wait)) := by
  unfold retryAfter
  cases hr : header headers "Retry-After".toList with
  | none => exact permitted_wait hpos hle
  | some t =>
    dsimp only
    split
    · exact permitted_wait hpos hle
    · rename_i hne
      obtain hempty | hv := hH t (hh t hr)
      · exact absurd hempty hne
      · cases hf : py.float t with
        | none => exact permitted_wait hpos hle
        | some v => exact hv v hf

theorem sleep_polling (hcap : 0 ≤ cfg.pollBackoffCapS) {v : FloatValue} (hv : Permitted cfg v) :
    Triple (fun w => Polling H cfg base deadline w ∧ w.clock < deadline) (sleep v (some deadline))
      (fun _ => Polling H cfg base deadline) (Sleeps H cfg (base + (cfg.jobTimeoutS + cfg.pollBackoffCapS))) := by
  have hslept : ∀ w, Polling H cfg base deadline w ∧ w.clock < deadline →
      Sleeps H cfg (base + (cfg.jobTimeoutS + cfg.pollBackoffCapS)) (w.ask v (some deadline)) := by
    intro w hw
    refine hw.1.sleeps.ask hcap hv ?_ ?_
    · intro d hd
      cases hd
      exact hw.2.le
    · have hc := hw.1.clock
      linarith [hw.2]
  refine sleep_ends v (some deadline) ?_ fun _ _ => hslept
  intro _ w hw
  refine ⟨hslept w hw, ?_⟩
  have hc := hw.1.clock
  rw [slept_ask]
  simp only [Net.ask]
  linarith

theorem pollLoop_sleeps (hcap : 0 < cfg.pollBackoffCapS) (hH : ∀ h ∈ H, Harmless py cfg h) (path : Text)
    (pinned : Meta) (fuel : ℕ) : ∀ wait, 0 < wait → wait ≤ cfg.pollBackoffCapS →
    Triple (Polling H cfg base deadline) (pollLoop py cfg path deadline pinned fuel wait)
      (fun _ => Sleeps H cfg (base + (cfg.jobTimeoutS + cfg.pollBackoffCapS)))
      (Sleeps H cfg (base + (cfg.jobTimeoutS + cfg.pollBackoffCapS))) := by
  induction fuel with
  | zero =>
    intro wait _ _
    exact Triple.raise fun w hw => hw.sleeps
  | succ fuel ih =>
    intro wait hpos hle
    refine Triple.bind (request_polling _) fun reply => Triple.assume fun hheader => ?_
    refine Triple.bind (Triple.ofExcept (fun _ _ w hw => hw) fun w hw => hw.sleeps) fun envelope => ?_
    dsimp only
    split
    · exact Triple.pure fun w hw => hw.sleeps
    split
    · exact Triple.ofExcept (fun _ _ w hw => hw.sleeps) fun w hw => hw.sleeps
    -- only here the clock is looked at: the deadline is not there yet when it sleeps
    refine Triple.bind (Triple.get (Q := fun v w => v = w ∧ Polling H cfg base deadline w) fun w hw => ⟨rfl, hw⟩) ?_
    intro v
    split
    · exact Triple.raise fun w hw => hw.2.sleeps
    · rename_i hbefore
      refine Triple.bind ((sleep_polling hcap.le (permitted_delay hH hheader hpos hle)).weaken ?_) fun _ => ?_
      · intro w hw
        exact ⟨hw.2, hw.1 ▸ not_le.mp hbefore⟩
      · exact ih _ (lt_min (by linarith) hcap) (min_le_right _ _)

theorem poll_sleeps (hinterval : 0 < cfg.pollIntervalS) (hcap : cfg.pollIntervalS ≤ cfg.pollBackoffCapS)
    (htimeout : 0 < cfg.jobTimeoutS) (hH : ∀ h ∈ H, Harmless py cfg h) (fuel : ℕ) (pinned : Meta) (jobId : PyStr) :
    Triple (Sleeps H cfg limit) (poll py cfg fuel pinned jobId)
      (fun _ => Sleeps H cfg (limit + (cfg.jobTimeoutS + cfg.pollBackoffCapS)))
      (Sleeps H cfg (limit + (cfg.jobTimeoutS + cfg.pollBackoffCapS))) := by
  have hless : limit ≤ limit + (cfg.jobTimeoutS + cfg.pollBackoffCapS) := by linarith
  refine Triple.bind (Triple.get (Q := fun v w => v = w ∧ Sleeps H cfg limit w) fun w hw => ⟨rfl, hw⟩) fun v => ?_
  split
  · exact Triple.raise fun w hw => hw.2.mono hless
  · refine (pollLoop_sleeps (by linarith) hH _ pinned fuel _ hinterval hcap).weaken ?_
    intro w hw
    refine ⟨hw.2.mono hless, ?_⟩
    have hs := hw.2.slept
    rw [hw.1]
    linarith

theorem ensureMeta_sleeps : Triple (Sleeps H cfg limit) (ensureMeta py) (fun _ => Sleeps H cfg limit) (Sleeps H cfg limit) := by
  refine Triple.bind (Triple.get (Q := fun _ w => Sleeps H cfg limit w) fun w hw => hw) fun v => ?_
  split
  · exact Triple.pure fun w hw => hw
  · refine Triple.bind (request_sleeps _) fun reply => ?_
    refine Triple.bind (Triple.ofExcept (fun _ _ w hw => hw) fun w hw => hw) fun d => ?_
    refine Triple.bind (Triple.ofExcept (fun _ _ w hw => hw) fun w hw => hw) fun pinned => ?_
    refine Triple.bind (Triple.modify (Q := fun _ => Sleeps H cfg limit) fun w hw => ?_) fun _ => ?_
    · exact ⟨hw.heeds, hw.forward, hw.near, hw.slept⟩
    · exact Triple.pure fun w hw => hw

theorem submit_sleeps : Triple (Sleeps H cfg limit) (submit py) (fun _ => Sleeps H cfg limit) (Sleeps H cfg limit) := by
  refine Triple.bind (request_sleeps _) fun reply => ?_
  refine Triple.bind (Triple.ofExcept (fun _ _ w hw => hw) fun w hw => hw) fun d => ?_
  exact Triple.ofExcept (fun _ _ w hw => hw) fun w hw => hw

theorem backoff_sleeps (hcap : 0 < cfg.pollBackoffCapS) (attempt : ℕ) :
    Triple (Sleeps H cfg limit) (backoff cfg attempt) (fun _ => Sleeps H cfg (limit + cfg.pollBackoffCapS))
      (Sleeps H cfg (limit + cfg.pollBackoffCapS)) := by
  have hless : limit ≤ limit + cfg.pollBackoffCapS := by linarith
  unfold backoff
  split
  · exact Triple.pure fun w hw => hw.mono hless
  split
  · exact Triple.raise fun w hw => hw.mono hless
  · have hpermitted : Permitted cfg (.finite (min (2 ^ attempt) cfg.pollBackoffCapS)) :=
      permitted_wait (lt_min (by positivity) hcap) (min_le_right _ _)
    have hask : ∀ w, Sleeps H cfg limit w → Sleeps H cfg (limit + cfg.pollBackoffCapS)
        (w.ask (.finite (min (2 ^ attempt) cfg.pollBackoffCapS)) none) := by
      intro w hw
      refine hw.ask hcap.le hpermitted (fun d hd => nomatch hd) ?_
      linarith [hw.slept]
    exact sleep_ends _ _ (fun _ => hask) fun _ _ => hask

variable (hinterval : 0 < cfg.pollIntervalS) (hcap : cfg.pollIntervalS ≤ cfg.pollBackoffCapS)
  (htimeout : 0 < cfg.jobTimeoutS) (hH : ∀ h ∈ H, Harmless py cfg h)
include hinterval hcap htimeout hH

theorem gradeOnce_sleeps (fuel : ℕ) :
    Triple (Sleeps H cfg limit) (gradeOnce py cfg fuel)
      (fun _ => Sleeps H cfg (limit + (cfg.jobTimeoutS + cfg.pollBackoffCapS)))
      (Sleeps H cfg (limit + (cfg.jobTimeoutS + cfg.pollBackoffCapS))) := by
  have hless : limit ≤ limit + (cfg.jobTimeoutS + cfg.pollBackoffCapS) := by linarith
  refine Triple.bind (ensureMeta_sleeps.raising _ fun w hw => hw.mono hless) fun pinned => ?_
  refine Triple.bind (submit_sleeps.raising _ fun w hw => hw.mono hless) fun jobId => ?_
  refine Triple.bind (poll_sleeps hinterval hcap htimeout hH fuel pinned jobId) fun envelope => ?_
  exact Triple.pure fun w hw => hw

theorem attempts_sleeps (code : Text) (fuel left : ℕ) : ∀ (lastError : Text) (limit : ℚ),
    Triple (Sleeps H cfg limit) (attempts py cfg code fuel left lastError)
      (fun _ => Sleeps H cfg (limit + left * (cfg.jobTimeoutS + 2 * cfg.pollBackoffCapS)))
      (Sleeps H cfg (limit + left * (cfg.jobTimeoutS + 2 * cfg.pollBackoffCapS))) := by
  induction left with
  | zero =>
    intro lastError limit
    refine Triple.bind (Triple.get (Q := fun _ w => Sleeps H cfg limit w) fun w hw => hw) fun v => ?_
    exact Triple.raise fun w hw => hw.mono (by simp)
  | succ left ih =>
    intro lastError limit
    have hpos : 0 < cfg.pollBackoffCapS := by linarith
    have hrest : 0 ≤ left * (cfg.jobTimeoutS + 2 * cfg.pollBackoffCapS) := by positivity
    have hsplit : limit + (left + 1 : ℕ) * (cfg.jobTimeoutS + 2 * cfg.pollBackoffCapS) =
        limit + cfg.pollBackoffCapS + (cfg.jobTimeoutS + cfg.pollBackoffCapS) +
          left * (cfg.jobTimeoutS + 2 * cfg.pollBackoffCapS) := by
      push_cast
      ring
    rw [hsplit]
    refine Triple.bind ((backoff_sleeps hpos _).raising _ fun w hw => hw.mono (by linarith)) fun _ => ?_
    refine Triple.bind (Triple.modify (Q := fun _ => Sleeps H cfg (limit + cfg.pollBackoffCapS)) fun w hw => ?_)
      fun _ => ?_
    · exact ⟨hw.heeds, hw.forward, hw.near, hw.slept⟩
    refine Triple.bind (Q := fun _ => Sleeps H cfg (limit + cfg.pollBackoffCapS +
      (cfg.jobTimeoutS + cfg.pollBackoffCapS))) ?_ fun outcome => ?_
    · refine ((gradeOnce_sleeps hinterval hcap htimeout hH fuel).attempt _).strengthen ?_
      rintro r w (⟨_, _, hw⟩ | ⟨_, _, hw⟩) <;> exact hw
    have hnext : ∀ message, Triple (Sleeps H cfg (limit + cfg.pollBackoffCapS +
        (cfg.jobTimeoutS + cfg.pollBackoffCapS)))
        (Prog.modify Net.fail >>= fun _ => attempts py cfg code fuel left message) _ _ := fun message =>
      Triple.bind (Triple.modify (Q := fun _ => Sleeps H cfg (limit + cfg.pollBackoffCapS +
        (cfg.jobTimeoutS + cfg.pollBackoffCapS))) fun w hw => ⟨hw.heeds, hw.forward, hw.near, hw.slept⟩)
        fun _ => ih message _
    split
    · exact hnext _
    · exact Triple.raise fun w hw => hw.mono (by linarith)
    · split
      · exact hnext _
      · exact Triple.ofExcept (fun _ _ w hw => hw.mono (by linarith)) fun w hw => hw.mono (by linarith)

theorem grade_bounded (code : Text) (fuel : ℕ) {w : Net} (hheeds : w.traffic.Heeds H) (hw : w.asked = []) :
    Bounded cfg (grade py cfg code fuel w).2 := by
  have hstart : Sleeps H cfg 0 w := by
    refine ⟨hheeds, ?_, ?_, ?_⟩
    · intro a ha
      rw [hw] at ha
      exact nomatch ha
    · intro a ha
      rw [hw] at ha
      exact nomatch ha
    · rw [Net.slept, hw]
      exact le_rfl
  have hend := attempts_sleeps hinterval hcap htimeout hH code fuel cfg.maxAttempts "no attempt made".toList 0 w hstart
  have hsleeps : Sleeps H cfg (0 + cfg.maxAttempts * (cfg.jobTimeoutS + 2 * cfg.pollBackoffCapS))
      (grade py cfg code fuel w).2 := by
    unfold grade
    split at hend
    all_goals
      rename_i hrun
      rw [hrun]
      exact hend
  exact ⟨hsleeps.forward, hsleeps.near, by simpa using hsleeps.slept⟩

end

section
variable (py : Builtins) (cfg : RemoteEvalConfig)

def hurrying (h : Text) (took : ℚ) (htook : 0 ≤ took) (always : Answer) : Traffic :=
  .starting [⟨0, le_rfl, .opened 200 (.ok goodMeta) []⟩, ⟨0, le_rfl, .opened 200 (.ok goodJob) []⟩,
    ⟨took, htook, .opened 200 (.ok running) [("Retry-After".toList, h)]⟩] always

variable {py cfg} {H : Set Text} {h : Text} {took : ℚ} {htook : 0 ≤ took} {always : Answer}

def hurried (h : Text) (took : ℚ) (htook : 0 ≤ took) (always : Answer) : Net :=
  Net.receive .submit { Net.receive .ensureMeta { traffic := hurrying h took htook always } with
    pinned := some pinnedMeta }

theorem gradeOnce_hurrying (fuel : ℕ) :
    gradeOnce py cfg fuel { traffic := hurrying h took htook always } =
      (poll py cfg fuel pinnedMeta (some "j".toList) >>= fun envelope => pure (pinnedMeta, envelope))
        (hurried h took htook always) := by
  have hmeta : ensureMeta py { traffic := hurrying h took htook always } =
    (.ok pinnedMeta, { (Net.receive .ensureMeta { traffic := hurrying h took htook always }) with
      pinned := some pinnedMeta }) := rfl
  have hsubmit : submit py { (Net.receive .ensureMeta { traffic := hurrying h took htook always }) with
      pinned := some pinnedMeta } = (.ok (py.str (plain "j")), hurried h took htook always) := rfl
  rw [plain, py.str_str] at hsubmit
  unfold gradeOnce
  rw [Prog.bind_ok hmeta, Prog.bind_ok hsubmit]

theorem pollLoop_running {path : Text} {deadline wait : ℚ} {pinned : Meta} {fuel : ℕ} {w : Net} {reply : HttpReply}
    {d : List (PyValue × PyValue)}
    (hreply : replyOf (.poll path deadline wait pinned) (w.traffic.answers w.position).answer = .ok reply)
    (hd : object reply.body = .ok d) (hrunning : member d "status".toList = plain "running")
    (hbefore : (w.receive (.poll path deadline wait pinned)).clock < deadline) :
    pollLoop py cfg path deadline pinned (fuel + 1) wait w =
      (sleep ((retryAfter py reply.headers).getD (.finite wait)) (some deadline) >>= fun _ =>
        pollLoop py cfg path deadline pinned fuel (min (wait * 2) cfg.pollBackoffCapS))
        (w.receive (.poll path deadline wait pinned)) := by
  have hrequest : request (.poll path deadline wait pinned) w =
      (.ok reply, w.receive (.poll path deadline wait pinned)) := by rw [request, hreply]
  rw [pollLoop, Prog.bind_ok hrequest, Prog.ofExcept_bind hd, hrunning, if_neg (by decide), if_neg (by decide), Prog.bind_ok (Prog.get_run (w := w.receive _)),
    if_neg (not_le.mpr hbefore)]

theorem gradeOnce_asks (htook : 0 ≤ took) (always : Answer) {v : FloatValue} (hh : h ≠ []) (hv : py.float h = some v)
    (hbefore : took < cfg.jobTimeoutS) :
    ∃ e w, gradeOnce py cfg 1 { traffic := hurrying h took htook always } = (.error e, w) ∧
      (∀ message, e ≠ .connectionError message) ∧ w.asked = [⟨v, took, some cfg.jobTimeoutS⟩] := by
  let d := 0 + 0 + 0 + cfg.jobTimeoutS
  let step := Step.poll "/v1/evaluations/j".toList d cfg.pollIntervalS pinnedMeta
  let w := Net.receive step (hurried h took htook always)
  have hclock : w.clock = 0 + 0 + 0 + took := rfl
  have hdelay : retryAfter py [("Retry-After".toList, h)] = some v := by
    have hheader : header [("Retry-After".toList, h)] "Retry-After".toList = some h := rfl
    rw [retryAfter, hheader]
    dsimp only
    rw [if_neg hh, hv]
  have hasked : (w.ask v (some d)).asked = [⟨v, took, some cfg.jobTimeoutS⟩] := by
    show [] ++ [(⟨v, w.clock, some d⟩ : Ask)] = _
    rw [hclock]
    simp only [d, zero_add, List.nil_append]
  have hreply : replyOf step ((hurrying h took htook always).answers 2).answer =
    .ok { status := 200, body := running, headers := [("Retry-After".toList, h)] } := rfl
  have hloop : pollLoop py cfg "/v1/evaluations/j".toList d pinnedMeta 1 cfg.pollIntervalS
      (hurried h took htook always) = (sleep v (some d) >>= fun _ => Prog.raise .unfinished) w := by
    rw [pollLoop_running hreply rfl rfl (by rw [hclock]; exact add_lt_add_right hbefore _), hdelay]
    rfl
  have hpoll : poll py cfg 1 pinnedMeta (some "j".toList) (hurried h took htook always) =
      (sleep v (some d) >>= fun _ => Prog.raise .unfinished) w := hloop
  rw [gradeOnce_hurrying]
  cases hr : refused v with
  | none =>
    have hsleep : sleep v (some d) w = (.ok (), w.ask v (some d)) := by rw [sleep, hr]
    rw [Prog.bind_ok hsleep] at hpoll
    exact ⟨.unfinished, w.ask v (some d), Prog.bind_error hpoll, fun _ => by simp, hasked⟩
  | some s =>
    have hsleep : sleep v (some d) w = (.error (.stray s), w.ask v (some d)) := by rw [sleep, hr]
    rw [Prog.bind_error hsleep] at hpoll
    exact ⟨.stray s, w.ask v (some d), Prog.bind_error hpoll, fun _ => by simp, hasked⟩

theorem grade_asks (code : Text) (hattempts : 0 < cfg.maxAttempts) {v : FloatValue} (hh : h ≠ [])
    (hv : py.float h = some v) (hbefore : took < cfg.jobTimeoutS) :
    (grade py cfg code 1 { traffic := hurrying h took htook always }).2.asked =
      [⟨v, took, some cfg.jobTimeoutS⟩] := by
  obtain ⟨e, w, honce, he, hasked⟩ := gradeOnce_asks htook always hh hv hbefore
  obtain ⟨left, hleft⟩ := Nat.exists_eq_succ_of_ne_zero hattempts.ne'
  have hfirst : cfg.maxAttempts - (left + 1) = 0 := by omega
  have hattempt : Prog.attempt (gradeOnce py cfg 1) { traffic := hurrying h took htook always } = (.ok (.error e), w) := by
    rw [Prog.attempt, honce]
  rw [grade, hleft, attempts, hfirst, backoff, if_pos rfl]
  rw [pure_bind, Prog.bind_ok (Prog.modify_run _), Prog.bind_ok hattempt]
  cases e with
  | connectionError message => exact absurd rfl (he message)
  | evalInfraError message => exact hasked
  | evalProtocolError message => exact hasked
  | stray s => exact hasked
  | unfinished => exact hasked

theorem hurrying_heeds (hh : h ∈ H) : (hurrying h took htook (.osError [])).Heeds H := by
  intro i g hg
  match i with
  | 0 | 1 | i + 3 => exact nomatch hg
  | 2 =>
    have hheader : header [("Retry-After".toList, h)] "Retry-After".toList = some h := rfl
    rw [show (hurrying h took htook (.osError [])).answers 2 = ⟨took, htook, .opened 200 (.ok running)
      [("Retry-After".toList, h)]⟩ from rfl, Answer.headers, hheader] at hg
    cases hg
    exact hh

theorem not_bounded_of_harmful (htimeout : 0 < cfg.jobTimeoutS) {v : FloatValue}
    (hv : ¬Permitted cfg v) : ∃ took, 0 ≤ took ∧ took < cfg.jobTimeoutS ∧
      ∀ w : Net, w.asked = [⟨v, took, some cfg.jobTimeoutS⟩] → ¬Bounded cfg w := by
  by_cases hforward : v.Forward
  · have hlong : ∃ q, v = .finite q ∧ refused v = none ∧ cfg.pollBackoffCapS < q := by
      by_contra hno
      refine hv ⟨hforward, ?_⟩
      intro q hq hr
      by_contra hlt
      exact hno ⟨q, hq, hr, not_le.mp hlt⟩
    obtain ⟨q, hq, hr, hlt⟩ := hlong
    -- before the deadline by less than what is too much
    let before := min cfg.jobTimeoutS ((q - cfg.pollBackoffCapS) / 2)
    have hpos : 0 < before := lt_min htimeout (by linarith)
    have hbefore : before < q - cfg.pollBackoffCapS := (min_le_right _ _).trans_lt (by linarith)
    refine ⟨cfg.jobTimeoutS - before, sub_nonneg.mpr (min_le_left _ _), by linarith, ?_⟩
    intro w hw hb
    have hnear := hb.near ⟨v, cfg.jobTimeoutS - before, some cfg.jobTimeoutS⟩ (by rw [hw]; exact List.mem_singleton_self _)
      cfg.jobTimeoutS rfl
    subst hq
    have hslept : Ask.slept ⟨.finite q, cfg.jobTimeoutS - before, some cfg.jobTimeoutS⟩ = q := by
      unfold Ask.slept
      exact if_pos hr
    rw [hslept] at hnear
    linarith
  · refine ⟨0, le_rfl, htimeout, ?_⟩
    intro w hw hb
    exact hforward (hb.forward ⟨v, 0, some cfg.jobTimeoutS⟩ (by rw [hw]; exact List.mem_singleton_self _))

end

/-- The waiting is bounded against every service whose headers are of this kind, and no other. -/
theorem waiting_bounded_iff (py : Builtins) (cfg : RemoteEvalConfig) (hinterval : 0 < cfg.pollIntervalS)
    (hcap : cfg.pollIntervalS ≤ cfg.pollBackoffCapS) (htimeout : 0 < cfg.jobTimeoutS) (H : Set Text) :
    (∀ traffic clock pinned code fuel, Traffic.Heeds H traffic →
        Bounded cfg (grade py cfg code fuel { traffic, clock, pinned }).2) ↔
      (0 < cfg.maxAttempts → ∀ h ∈ H, Harmless py cfg h) := by
  constructor
  · intro hall hattempts h hh
    by_contra hharm
    have hne : h ≠ [] := fun he => hharm (.inl he)
    have hv : ∃ v, py.float h = some v ∧ ¬Permitted cfg v := by
      by_contra hno
      refine hharm (.inr ?_)
      intro v hv
      by_contra hp
      exact hno ⟨v, hv, hp⟩
    obtain ⟨v, hv, hp⟩ := hv
    obtain ⟨took, htook, hbefore, hbad⟩ := not_bounded_of_harmful htimeout hp
    exact hbad _ (grade_asks [] hattempts hne hv hbefore)
      (hall (hurrying h took htook (.osError [])) 0 none [] 1 (hurrying_heeds hh))
  · intro hH traffic clock pinned code fuel hheeds
    by_cases hattempts : 0 < cfg.maxAttempts
    · exact grade_bounded hinterval hcap htimeout (hH hattempts) code fuel hheeds rfl
    · have hnone : cfg.maxAttempts = 0 := Nat.eq_zero_of_not_pos hattempts
      have hrun : (grade py cfg code fuel { traffic, clock, pinned }).2 = { traffic, clock, pinned } := by
        rw [grade, hnone]
        rfl
      rw [hrun]
      refine ⟨fun a ha => (nomatch ha), fun a ha => (nomatch ha), ?_⟩
      rw [hnone]
      simp [Net.slept]

theorem waiting_bounded_five : Bounded {} (grade sampleBuiltins {} "1".toList 9
    { traffic := hurrying "5".toList 899 (by decide) (.osError []) }).2 :=
  (waiting_bounded_iff sampleBuiltins {} (by decide) (by decide) (by decide) {"5".toList}).mpr
    (fun _ h hh => by
      subst hh
      refine .inr ?_
      intro v hv
      have hfive : v = .finite 5 := by
        rw [← Option.some.inj hv]
        decide +kernel
      subst hfive
      exact ⟨by norm_num [FloatValue.Forward], fun q hq _ => by cases hq; decide⟩) _ 0 none _ 9 (hurrying_heeds rfl)

def hourLong : Traffic :=
  hurrying "3600".toList 0 le_rfl (.opened 200 (.ok (.dict [(plain "status", plain "infra_error")])) [])

def infra : Except Raised WireReport → Bool
  | .error (.evalInfraError _) => true
  | _ => false

theorem hour_slept : ∃ message w, grade sampleBuiltins { maxAttempts := 1 } "1".toList 9 { traffic := hourLong } =
    (.error (.evalInfraError message), w) ∧ w.slept = 3600 ∧ ¬Bounded { maxAttempts := 1 } w := by
  have hslept : (grade sampleBuiltins { maxAttempts := 1 } "1".toList 9 { traffic := hourLong }).2.slept = 3600 := by
    decide +kernel
  have hraised : infra (grade sampleBuiltins { maxAttempts := 1 } "1".toList 9 { traffic := hourLong }).1 = true := by
    decide +kernel
  cases hrun : grade sampleBuiltins { maxAttempts := 1 } "1".toList 9 { traffic := hourLong } with
  | mk r w =>
    rw [hrun] at hslept hraised
    unfold infra at hraised
    split at hraised
    · rename_i message hr
      subst hr
      refine ⟨message, w, rfl, hslept, ?_⟩
      intro hb
      have htotal := hb.total
      rw [hslept] at htotal
      norm_num at htotal
    · cases hraised

end EvoHarness.Core.Remote
