import EvoHarness.Core.Remote

/-! How one call of the remote grader ends. -/
namespace EvoHarness.Core.Remote
open PyText Hoare Evaluation

section
variable (py : Builtins) (cfg : RemoteEvalConfig)

def isStatus (s : String) (d : List (PyValue × PyValue)) : Prop := isString s.toList (member d "status".toList) = true

inductive Transient : Received → Prop
  | network {r : Received} {message : Text} (h : urllibTransport r.answer = .error (.connectionError message)) :
    Transient r
  | server {r : Received} {reply : HttpReply} (h : urllibTransport r.answer = .ok reply) (hs : 500 ≤ reply.status) :
    Transient r
  | lost {r : Received} {reply : HttpReply} (h : urllibTransport r.answer = .ok reply) (hs : reply.status = 404)
    (hpoll : r.step.transient404 = true) : Transient r
  | infra {r : Received} {reply : HttpReply} {d : List (PyValue × PyValue)} (h : urllibTransport r.answer = .ok reply)
    (hd : object reply.body = .ok d) (hpoll : r.step.transient404 = true) (hs : isStatus "infra_error" d) : Transient r
  | late {r : Received} {reply : HttpReply} {d : List (PyValue × PyValue)} {path : Text} {deadline wait : ℚ}
    {pinned : Meta} (h : urllibTransport r.answer = .ok reply) (hd : object reply.body = .ok d)
    (hpoll : r.step = .poll path deadline wait pinned) (hs : isStatus "queued" d ∨ isStatus "running" d)
    (hlate : deadline ≤ r.clock) : Transient r

def UnderPinned (pinned : Meta) (d : List (PyValue × PyValue)) : Prop :=
  py.equal (member d "task_version".toList) pinned.taskVersion = true ∧
    py.equal (member d "eval_set_version".toList) pinned.evalSetVersion = true

inductive NonConformant : Received → Prop
  | status {r : Received} {reply : HttpReply} (h : urllibTransport r.answer = .ok reply) (hs : 400 ≤ reply.status)
    (hless : reply.status < 500) (hlost : ¬(reply.status = 404 ∧ r.step.transient404 = true)) : NonConformant r
  | badMeta {r : Received} {reply : HttpReply} {d : List (PyValue × PyValue)} (h : urllibTransport r.answer = .ok reply)
    (hd : object reply.body = .ok d) (hstep : r.step = .ensureMeta)
    (hs : equalsOne (member d "protocol_version".toList) = false ∨ truthy (member d "task_version".toList) = false ∨
      truthy (member d "eval_set_version".toList) = false) : NonConformant r
  | submit {r : Received} {reply : HttpReply} {d : List (PyValue × PyValue)} (h : urllibTransport r.answer = .ok reply)
    (hd : object reply.body = .ok d) (hstep : r.step = .submit) (hs : truthy (member d "job_id".toList) = false) :
    NonConformant r
  | unknown {r : Received} {reply : HttpReply} {d : List (PyValue × PyValue)}
    (h : urllibTransport r.answer = .ok reply) (hd : object reply.body = .ok d) (hpoll : r.step.transient404 = true)
    (hs : ∀ s ∈ ["done", "infra_error", "queued", "running"], ¬isStatus s d) : NonConformant r
  | drift {r : Received} {reply : HttpReply} {d : List (PyValue × PyValue)} {path : Text} {deadline wait : ℚ}
    {pinned : Meta} (h : urllibTransport r.answer = .ok reply) (hd : object reply.body = .ok d)
    (hpoll : r.step = .poll path deadline wait pinned) (hs : isStatus "done" d) (hdrift : ¬UnderPinned py pinned d) :
    NonConformant r
  | noReport {r : Received} {reply : HttpReply} {d : List (PyValue × PyValue)} (h : urllibTransport r.answer = .ok reply)
    (hd : object reply.body = .ok d) (hpoll : r.step.transient404 = true) (hs : isStatus "done" d)
    (hreport : ∀ raw, member d "report".toList ≠ .dict raw) : NonConformant r
  | badReport {r : Received} {reply : HttpReply} {d raw : List (PyValue × PyValue)}
    (h : urllibTransport r.answer = .ok reply) (hd : object reply.body = .ok d) (hpoll : r.step.transient404 = true)
    (hs : isStatus "done" d) (hreport : member d "report".toList = .dict raw)
    (hbad : equalsOne (member raw "schema_version".toList) = false ∨ ∃ message,
      fromJson py raw = .error (.typeError message) ∨ fromJson py raw = .error (.valueError message)) : NonConformant r

structure Reports (pinned : Option Meta) (r : Received) (report : WireReport) : Prop where
  polled : ∃ path deadline wait p, pinned = some p ∧ r.step = .poll path deadline wait p ∧
    ∃ reply d raw, urllibTransport r.answer = .ok reply ∧ object reply.body = .ok d ∧ isStatus "done" d ∧
      UnderPinned py p d ∧ member d "report".toList = .dict raw ∧ fromJson py raw = .ok report

def Taxonomy (result : Except Raised WireReport) (w : Net) : Prop :=
  match result with
  | .ok report => ∃ r ∈ w.received.getLast?, Reports py w.pinned r report
  | .error (.evalInfraError _) =>
    w.failed.map (·.attempt) = List.range cfg.maxAttempts ∧ ∀ r ∈ w.failed, r ∈ w.received ∧ Transient r
  | .error (.evalProtocolError _) => ∃ r ∈ w.received.getLast?, NonConformant py r
  | .error _ => False

def Step.Takes (clock : ℚ) (headers : List (Text × Text)) (d : List (PyValue × PyValue)) : Step → Prop
  | .ensureMeta => True
  | .submit => truthy (member d "job_id".toList) = true → sendable (py.str (member d "job_id".toList)) ≠ none
  | .poll _ deadline wait pinned =>
    (isStatus "done" d → ∀ s, accept py pinned d ≠ .error (.stray s)) ∧
      (isStatus "queued" d ∨ isStatus "running" d → clock < deadline →
        refused ((retryAfter py headers).getD (.finite wait)) = none)

/-- An answer that the client is made for: an error of the network, a status that says that it failed, or a body that
is an object, or nothing, and taken. -/
def Covered (r : Received) : Prop :=
  match urllibTransport r.answer with
  | .error (.connectionError _) => True
  | .error _ => False
  | .ok reply => 400 ≤ reply.status ∨ ∃ d, object reply.body = .ok d ∧ r.step.Takes py r.clock reply.headers d

def Waits (attempt : ℕ) : Prop := attempt < 1024 ∧ refused (.finite (min (2 ^ attempt) cfg.pollBackoffCapS)) = none

/-- All that was received is what the client is made for, and it could wait before each attempt but the first. -/
def Conforms (w : Net) : Prop :=
  (∀ r ∈ w.received, Covered py r) ∧ ∀ a, 0 < a → a < cfg.maxAttempts → a ≤ w.failed.length → Waits cfg a

end

section
variable {py : Builtins} {cfg : RemoteEvalConfig} {k : ℕ}

structure Between (py : Builtins) (cfg : RemoteEvalConfig) (k : ℕ) (w : Net) : Prop where
  covered : ∀ r ∈ w.received, Covered py r
  failed : w.failed.map (·.attempt) = List.range k
  transient : ∀ r ∈ w.failed, r ∈ w.received ∧ Transient r
  waited : ∀ a, 0 < a → a < k → Waits cfg a

structure Going (py : Builtins) (cfg : RemoteEvalConfig) (k : ℕ) (w : Net) : Prop extends Between py cfg k w where
  attempt : w.attempt = k
  waits : 0 < k → Waits cfg k

structure Heard (py : Builtins) (cfg : RemoteEvalConfig) (k : ℕ) (step : Step) (reply : HttpReply) (w : Net) : Prop where
  last : ∃ old r, w.received = old ++ [r] ∧ r.step = step ∧ r.attempt = k ∧ r.clock = w.clock ∧
    urllibTransport r.answer = .ok reply ∧ ∀ q ∈ old, Covered py q
  fine : reply.status < 400
  failed : w.failed.map (·.attempt) = List.range k
  transient : ∀ r ∈ w.failed, r ∈ w.received ∧ Transient r
  attempt : w.attempt = k
  waited : ∀ a, 0 < a → a < k → Waits cfg a
  waits : 0 < k → Waits cfg k

def Ending (py : Builtins) (cfg : RemoteEvalConfig) (k : ℕ) (e : Raised) (w : Net) : Prop :=
  match e with
  | .connectionError _ => Going py cfg k w ∧ ∃ r ∈ w.received.getLast?, r.attempt = k ∧ Transient r
  | .evalProtocolError _ => Going py cfg k w ∧ ∃ r ∈ w.received.getLast?, NonConformant py r
  | .stray _ => ∃ r ∈ w.received, ¬Covered py r
  | .evalInfraError _ => False
  | .unfinished => True

theorem covered_ok {r : Received} {reply : HttpReply} (h : urllibTransport r.answer = .ok reply) :
    Covered py r ↔ 400 ≤ reply.status ∨ ∃ d, object reply.body = .ok d ∧ r.step.Takes py r.clock reply.headers d := by
  unfold Covered
  rw [h]

theorem Heard.going {step : Step} {reply : HttpReply} {w : Net} (h : Heard py cfg k step reply w)
    {d : List (PyValue × PyValue)} (hd : object reply.body = .ok d) (ht : step.Takes py w.clock reply.headers d) :
    Going py cfg k w := by
  obtain ⟨old, r, hreceived, hstep, _, hclock, hreply, hold⟩ := h.last
  refine ⟨⟨?_, h.failed, h.transient, h.waited⟩, h.attempt, h.waits⟩
  intro q hq
  rw [hreceived] at hq
  obtain hq | rfl := List.mem_append.mp hq |>.imp_right List.mem_singleton.mp
  · exact hold q hq
  · exact (covered_ok hreply).mpr (.inr ⟨d, hd, by rwa [hstep, hclock]⟩)

theorem Heard.uncovered {step : Step} {reply : HttpReply} {w : Net} (h : Heard py cfg k step reply w)
    (hno : ∀ d, object reply.body = .ok d → ¬step.Takes py w.clock reply.headers d) :
    ∃ r ∈ w.received, ¬Covered py r := by
  obtain ⟨old, r, hreceived, hstep, _, hclock, hreply, _⟩ := h.last
  refine ⟨r, ?_, ?_⟩
  · rw [hreceived]
    exact List.mem_append_right _ (List.mem_singleton_self r)
  · rw [covered_ok hreply]
    rintro (hs | ⟨d, hd, ht⟩)
    · exact absurd hs (not_le.mpr h.fine)
    · rw [hstep, hclock] at ht
      exact hno d hd ht

theorem Heard.getLast {step : Step} {reply : HttpReply} {w : Net} (h : Heard py cfg k step reply w) :
    ∃ r ∈ w.received.getLast?, r.step = step ∧ r.attempt = k ∧ r.clock = w.clock ∧
      urllibTransport r.answer = .ok reply := by
  obtain ⟨old, r, hreceived, hstep, hattempt, hclock, hreply, _⟩ := h.last
  refine ⟨r, ?_, hstep, hattempt, hclock, hreply⟩
  rw [hreceived, List.getLast?_append]
  rfl

theorem urllibTransport_error {a : Answer} {e : Raised} (h : urllibTransport a = .error e) :
    (∃ message, e = .connectionError message) ∨ ∃ s, e = .stray s := by
  unfold urllibTransport at h
  split at h
  all_goals cases h
  all_goals first | exact .inl ⟨_, rfl⟩ | exact .inr ⟨_, rfl⟩

variable {I : Option Meta → Prop}

theorem Going.receive_going {w : Net} (h : Going py cfg k w) {step : Step}
    (hc : ∀ r : Received, r.step = step → r.answer = (w.traffic.answers w.position).answer → Covered py r) :
    Going py cfg k (w.receive step) := by
  refine ⟨⟨?_, h.failed, ?_, h.waited⟩, h.attempt, h.waits⟩
  · intro q hq
    obtain hq | rfl := List.mem_append.mp hq |>.imp_right List.mem_singleton.mp
    · exact h.covered q hq
    · exact hc _ rfl rfl
  · intro r hr
    exact ⟨List.mem_append_left _ (h.transient r hr).1, (h.transient r hr).2⟩

theorem receive_getLast (w : Net) (step : Step) : (w.receive step).received.getLast? =
    some ⟨w.attempt, step, (w.traffic.answers w.position).answer, w.clock + (w.traffic.answers w.position).took⟩ := by
  rw [Net.receive, List.getLast?_append]
  rfl

theorem request_ending (step : Step) :
    Prog.Ends (fun w => Going py cfg k w ∧ I w.pinned) (request step)
      (fun reply w => Heard py cfg k step reply w ∧ I w.pinned) (Ending py cfg k) := by
  intro w hw
  obtain ⟨hgoing, hI⟩ := hw
  have hlast := receive_getLast w step
  rw [hgoing.attempt] at hlast
  unfold request replyOf
  cases hr : urllibTransport (w.traffic.answers w.position).answer with
  | error e =>
    obtain ⟨message, rfl⟩ | ⟨s, rfl⟩ := urllibTransport_error hr
    · refine ⟨hgoing.receive_going ?_, _, hlast, rfl, .network hr⟩
      intro r _ ha
      unfold Covered
      rw [ha, hr]
      trivial
    · refine ⟨_, List.mem_of_getLast? hlast, ?_⟩
      unfold Covered
      rw [hr]
      exact id
  | ok reply =>
    have hfailed : 400 ≤ reply.status → Going py cfg k (w.receive step) := by
      intro hs
      refine hgoing.receive_going ?_
      intro r _ ha
      exact (covered_ok (ha ▸ hr)).mpr (.inl hs)
    dsimp only
    unfold checkStatus protocolError
    by_cases hserver : 500 ≤ reply.status
    · rw [if_pos hserver]
      exact ⟨hfailed (by omega), _, hlast, rfl, .server hr hserver⟩
    by_cases hlost : reply.status = 404 ∧ step.transient404 = true
    · rw [if_neg hserver, if_pos hlost]
      exact ⟨hfailed (by omega), _, hlast, rfl, .lost hr hlost.1 hlost.2⟩
    by_cases hs : 400 ≤ reply.status
    · rw [if_neg hserver, if_neg hlost, if_pos hs]
      exact ⟨hfailed hs, _, hlast, .status hr hs (by omega) hlost⟩
    · rw [if_neg hserver, if_neg hlost, if_neg hs]
      refine ⟨⟨⟨w.received, _, rfl, rfl, hgoing.attempt, rfl, hr, hgoing.covered⟩, not_le.mp hs, hgoing.failed, ?_,
        hgoing.attempt, hgoing.waited, hgoing.waits⟩, hI⟩
      intro r hr
      exact ⟨List.mem_append_left _ (hgoing.transient r hr).1, (hgoing.transient r hr).2⟩

theorem object_ending (step : Step) (reply : HttpReply) :
    Prog.Ends (fun w => Heard py cfg k step reply w ∧ I w.pinned) (Prog.ofExcept (object reply.body))
      (fun d w => object reply.body = .ok d ∧ Heard py cfg k step reply w ∧ I w.pinned) (Ending py cfg k) := by
  refine Prog.Ends.ofExcept (fun d hd w hw => ⟨hd, hw⟩) ?_
  intro e he w hw
  have hstray : e = .stray .attributeError := by
    unfold object at he
    split at he
    · exact nomatch he
    · split at he
      · exact (Except.error.inj he).symm
      · exact nomatch he
  subst hstray
  refine hw.1.uncovered ?_
  intro d hd
  rw [he] at hd
  exact nomatch hd

theorem metaOf_error {d : List (PyValue × PyValue)} {e : Raised} (h : metaOf py d = .error e) :
    (∃ message, e = .evalProtocolError message) ∧ (equalsOne (member d "protocol_version".toList) = false ∨
      truthy (member d "task_version".toList) = false ∨ truthy (member d "eval_set_version".toList) = false) := by
  unfold metaOf protocolError at h
  dsimp only at h
  split at h
  · rename_i hs
    exact ⟨⟨_, (Except.error.inj h).symm⟩, .inl hs⟩
  split at h
  · rename_i hs
    exact ⟨⟨_, (Except.error.inj h).symm⟩, .inr (.inl hs)⟩
  split at h
  · rename_i hs
    exact ⟨⟨_, (Except.error.inj h).symm⟩, .inr (.inr hs)⟩
  · exact nomatch h

theorem ensureMeta_ending :
    Prog.Ends (Going py cfg k) (ensureMeta py) (fun pinned w => Going py cfg k w ∧ w.pinned = some pinned)
      (Ending py cfg k) := by
  refine Prog.Ends.bind (Prog.Ends.get (Q := fun v w => v = w ∧ Going py cfg k w) fun w hw => ⟨rfl, hw⟩) fun v => ?_
  split
  · rename_i pinned hp
    refine Prog.Ends.pure ?_
    rintro w ⟨rfl, hw⟩
    exact ⟨hw, hp⟩
  · refine Prog.Ends.bind ((request_ending (I := fun _ => True) .ensureMeta).conseq (fun w hw => ⟨hw.2, trivial⟩)
      (fun _ _ => id) fun _ _ => id) fun reply => ?_
    refine Prog.Ends.bind (object_ending (I := fun _ => True) _ reply) fun d => Prog.Ends.assume fun hd => ?_
    have hgoing : ∀ w, Heard py cfg k .ensureMeta reply w → Going py cfg k w := fun w hw => hw.going hd trivial
    refine Prog.Ends.bind (Q := fun _ => Going py cfg k) (Prog.Ends.ofExcept (fun _ _ w hw => hgoing w hw.1) ?_)
      fun pinned => ?_
    · intro e he w hw
      obtain ⟨⟨message, rfl⟩, hbad⟩ := metaOf_error he
      obtain ⟨r, hlast, hstep, _, _, hreply⟩ := hw.1.getLast
      exact ⟨hgoing w hw.1, r, hlast, .badMeta hreply hd hstep hbad⟩
    · refine Prog.Ends.bind (Prog.Ends.modify (Q := fun _ w => Going py cfg k w ∧ w.pinned = some pinned) ?_)
        fun _ => Prog.Ends.pure fun w hw => hw
      intro w hw
      exact ⟨⟨⟨hw.covered, hw.failed, hw.transient, hw.waited⟩, hw.attempt, hw.waits⟩, rfl⟩

/-- The pinned versions stay; a job id that is asked for can be sent, or the attempt has failed. -/
theorem submit_ending :
    Prog.Ends (fun w => Going py cfg k w ∧ I w.pinned) (submit py)
      (fun jobId w => if sendable jobId = none then ∃ r ∈ w.received, ¬Covered py r
        else Going py cfg k w ∧ I w.pinned) (Ending py cfg k) := by
  refine Prog.Ends.bind (request_ending .submit) fun reply => ?_
  refine Prog.Ends.bind (object_ending _ reply) fun d => Prog.Ends.assume fun hd => ?_
  refine Prog.Ends.ofExcept ?_ ?_
  · intro jobId hjob w hw
    have heq : jobId = py.str (member d "job_id".toList) ∧ truthy (member d "job_id".toList) = true := by
      unfold jobOf protocolError at hjob
      split at hjob
      · exact nomatch hjob
      · rename_i ht
        exact ⟨(Except.ok.inj hjob).symm, by simpa using ht⟩
    rw [heq.1]
    split
    · rename_i hnone
      refine hw.1.uncovered ?_
      intro d' hd' ht
      rw [hd] at hd'
      cases hd'
      exact ht heq.2 hnone
    · rename_i hsome
      exact ⟨hw.1.going hd fun _ => hsome, hw.2⟩
  · intro e he w hw
    unfold jobOf protocolError at he
    split at he
    · rename_i ht
      cases he
      obtain ⟨r, hlast, hstep, _, _, hreply⟩ := hw.1.getLast
      refine ⟨hw.1.going hd ?_, r, hlast, .submit hreply hd hstep ht⟩
      intro ht'
      rw [ht] at ht'
      exact nomatch ht'
    · exact nomatch he

def Finished (py : Builtins) (cfg : RemoteEvalConfig) (k : ℕ) (pinned : Meta) (d : List (PyValue × PyValue)) (w : Net) :
    Prop :=
  (∃ path deadline wait reply, Heard py cfg k (.poll path deadline wait pinned) reply w ∧ object reply.body = .ok d) ∧
    (isStatus "done" d ∨ isStatus "infra_error" d) ∧ w.pinned = some pinned

theorem isString_inj {s t : Text} {x : PyValue} (hs : isString s x = true) (ht : isString t x = true) : s = t := by
  unfold isString at hs ht
  split at hs
  · exact (of_decide_eq_true hs).symm.trans (of_decide_eq_true ht)
  · exact nomatch hs

theorem isStatus_inj {s t : String} {d : List (PyValue × PyValue)} (hs : isStatus s d) (ht : isStatus t d) : s = t :=
  String.toList_inj.mp (isString_inj hs ht)

theorem pollLoop_ending (path : Text) (deadline : ℚ) (pinned : Meta) (fuel : ℕ) : ∀ wait,
    Prog.Ends (fun w => Going py cfg k w ∧ w.pinned = some pinned) (pollLoop py cfg path deadline pinned fuel wait)
      (Finished py cfg k pinned) (Ending py cfg k) := by
  induction fuel with
  | zero =>
    intro wait
    exact Prog.Ends.raise fun _ _ => trivial
  | succ fuel ih =>
    intro wait
    refine Prog.Ends.bind (request_ending (I := fun p => p = some pinned) _) fun reply => ?_
    refine Prog.Ends.bind (object_ending (I := fun p => p = some pinned) _ reply) fun d =>
      Prog.Ends.assume fun hd => ?_
    dsimp only
    split
    · rename_i hfinished
      exact Prog.Ends.pure fun w hw => ⟨⟨path, deadline, wait, reply, hw.1, hd⟩, hfinished, hw.2⟩
    rename_i hnot
    have hdone : ¬isStatus "done" d := fun h => hnot (.inl h)
    have hinfra : ¬isStatus "infra_error" d := fun h => hnot (.inr h)
    split
    · rename_i hunknown
      refine Prog.Ends.ofExcept (fun _ h => nomatch h) ?_
      intro e he w hw
      cases he
      obtain ⟨r, hlast, hstep, _, _, hreply⟩ := hw.1.getLast
      refine ⟨hw.1.going hd ⟨fun h => absurd h hdone, fun h => absurd h hunknown⟩, r, hlast,
        .unknown hreply hd (by rw [hstep]; rfl) ?_⟩
      simp only [List.forall_mem_cons]
      exact ⟨hdone, hinfra, fun h => hunknown (.inl h), fun h => hunknown (.inr h), fun _ h => nomatch h⟩
    rename_i hwaiting
    have hwaiting : isStatus "queued" d ∨ isStatus "running" d := not_not.mp hwaiting
    refine Prog.Ends.bind (Prog.Ends.get (Q := fun v w => v = w ∧ Heard py cfg k _ reply w ∧ w.pinned = some pinned)
      fun w hw => ⟨rfl, hw⟩) fun v => ?_
    split
    · rename_i hlate
      refine Prog.Ends.raise ?_
      rintro w ⟨rfl, hw, _⟩
      obtain ⟨r, hlast, hstep, hattempt, hclock, hreply⟩ := hw.getLast
      exact ⟨hw.going hd ⟨fun h => absurd h hdone, fun _ h => absurd h (not_lt.mpr hlate)⟩, r, hlast, hattempt,
        .late hreply hd hstep hwaiting (hclock ▸ hlate)⟩
    · rename_i hearly
      refine Prog.Ends.bind (Q := fun _ w => Going py cfg k w ∧ w.pinned = some pinned)
        (sleep_ends _ _ ?_ ?_) fun _ => ih _
      · rintro hsleeps w ⟨rfl, hw, hp⟩
        have hgoing := hw.going hd ⟨fun h => absurd h hdone, fun _ _ => hsleeps⟩
        exact ⟨⟨⟨hgoing.covered, hgoing.failed, hgoing.transient, hgoing.waited⟩, hgoing.attempt, hgoing.waits⟩, hp⟩
      · rintro s hrefused w ⟨rfl, hw, _⟩
        refine hw.uncovered ?_
        intro d' hd' ht
        rw [hd] at hd'
        cases hd'
        have hsleeps := ht.2 hwaiting (not_le.mp hearly)
        rw [hrefused] at hsleeps
        exact nomatch hsleeps

theorem gradeOnce_ending (fuel : ℕ) :
    Prog.Ends (Going py cfg k) (gradeOnce py cfg fuel) (fun r => Finished py cfg k r.1 r.2) (Ending py cfg k) := by
  refine Prog.Ends.bind ensureMeta_ending fun pinned => ?_
  refine Prog.Ends.bind (submit_ending (I := fun p => p = some pinned)) fun jobId => ?_
  refine Prog.Ends.bind (Q := Finished py cfg k pinned) ?_ fun envelope => Prog.Ends.pure fun w hw => hw
  refine Prog.Ends.bind (Prog.Ends.get (Q := fun _ w => if sendable jobId = none then ∃ r ∈ w.received, ¬Covered py r
    else Going py cfg k w ∧ w.pinned = some pinned) fun w hw => hw) fun v => ?_
  cases sendable jobId with
  | none => exact Prog.Ends.raise fun w hw => by rwa [if_pos rfl] at hw
  | some path =>
    refine (pollLoop_ending path _ pinned fuel _).conseq ?_ (fun _ _ => id) fun _ _ => id
    intro w hw
    rwa [if_neg (Option.some_ne_none path)] at hw

def Ended (py : Builtins) (cfg : RemoteEvalConfig) (result : Except Raised WireReport) (w : Net) : Prop :=
  match result with
  | .error (.stray _) => ¬Conforms py cfg w
  | .error .unfinished => True
  | _ => Conforms py cfg w ∧ Taxonomy py cfg result w

theorem Going.conforms {w : Net} (h : Going py cfg k w) : Conforms py cfg w := by
  refine ⟨h.covered, ?_⟩
  intro a hpos _ hle
  have hlength : w.failed.length = k := by
    rw [← List.length_map (·.attempt), h.failed, List.length_range]
  obtain hlt | rfl := Nat.lt_or_eq_of_le (hlength ▸ hle)
  · exact h.waited a hpos hlt
  · exact h.waits hpos

theorem Going.fail {w : Net} (h : Going py cfg k w)
    (hlast : ∃ r ∈ w.received.getLast?, r.attempt = k ∧ Transient r) : Between py cfg (k + 1) w.fail := by
  obtain ⟨r, hr, hattempt, htransient⟩ := hlast
  have hfailed : w.fail.failed = w.failed ++ [r] := by
    rw [Net.fail, hr]
    rfl
  refine ⟨h.covered, ?_, ?_, ?_⟩
  · rw [hfailed, List.map_append, h.failed, List.range_succ, List.map_singleton, hattempt]
  · rw [hfailed]
    intro q hq
    obtain hq | rfl := List.mem_append.mp hq |>.imp_right List.mem_singleton.mp
    · exact h.transient q hq
    · exact ⟨List.mem_of_getLast? hr, htransient⟩
  · intro a hpos hlt
    obtain hlt | rfl := Nat.lt_or_eq_of_le (Nat.le_of_lt_succ hlt)
    · exact h.waited a hpos hlt
    · exact h.waits hpos

theorem backoff_ending (hk : k < cfg.maxAttempts) :
    Prog.Ends (Between py cfg k) (backoff cfg k) (fun _ w => Between py cfg k w ∧ (0 < k → Waits cfg k))
      fun e w => Ended py cfg (.error e) w := by
  have hbad : ¬Waits cfg k → 0 < k → ∀ w : Net, w.failed.map (·.attempt) = List.range k → ¬Conforms py cfg w := by
    intro hno hpos w hw hc
    have hlength : w.failed.length = k := by
      rw [← List.length_map (·.attempt), hw, List.length_range]
    exact hno (hc.2 k hpos hk hlength.ge)
  unfold backoff
  split
  · rename_i hzero
    exact Prog.Ends.pure fun w hw => ⟨hw, fun hpos => absurd hzero hpos.ne'⟩
  · rename_i hpos
    split
    · rename_i hlong
      exact Prog.Ends.raise fun w hw => hbad (fun h => absurd h.1 (not_lt.mpr hlong)) (Nat.pos_of_ne_zero hpos) w hw.failed
    · rename_i hshort
      refine sleep_ends _ _ ?_ ?_
      · intro hsleeps w hw
        exact ⟨⟨hw.covered, hw.failed, hw.transient, hw.waited⟩, fun _ => ⟨not_le.mp hshort, hsleeps⟩⟩
      · intro s hrefused w hw
        refine hbad ?_ (Nat.pos_of_ne_zero hpos) _ hw.failed
        intro h
        rw [h.2] at hrefused
        exact nomatch hrefused

theorem accept_spec (py : Builtins) (pinned : Meta) (d : List (PyValue × PyValue)) : match accept py pinned d with
    | .ok report => UnderPinned py pinned d ∧
      ∃ raw, member d "report".toList = .dict raw ∧ fromJson py raw = .ok report
    | .error (.evalProtocolError _) => ¬UnderPinned py pinned d ∨ (∀ raw, member d "report".toList ≠ .dict raw) ∨
      ∃ raw, member d "report".toList = .dict raw ∧ (equalsOne (member raw "schema_version".toList) = false ∨
        ∃ message, fromJson py raw = .error (.typeError message) ∨ fromJson py raw = .error (.valueError message))
    | .error (.stray _) => True
    | .error _ => False := by
  unfold accept
  by_cases htask : py.equal (member d "task_version".toList) pinned.taskVersion = false
  · rw [if_pos htask]
    exact .inl fun h => absurd h.1 (by rw [htask]; exact Bool.false_ne_true)
  by_cases hset : py.equal (member d "eval_set_version".toList) pinned.evalSetVersion = false
  · rw [if_neg htask, if_pos hset]
    exact .inl fun h => absurd h.2 (by rw [hset]; exact Bool.false_ne_true)
  rw [if_neg htask, if_neg hset]
  cases member d "report".toList with
  | dict raw =>
    dsimp only
    by_cases hschema : equalsOne (member raw "schema_version".toList) = false
    · rw [if_pos hschema]
      exact .inr (.inr ⟨raw, rfl, .inl hschema⟩)
    rw [if_neg hschema]
    cases hreport : fromJson py raw with
    | ok report =>
      dsimp only
      by_cases hdumps : py.dumps (.dict d) = true
      · rw [if_pos hdumps]
        exact ⟨⟨eq_true_of_ne_false htask, eq_true_of_ne_false hset⟩, raw, rfl, hreport⟩
      · rw [if_neg hdumps]
        trivial
    | error fault =>
      cases fault with
      | typeError message => exact .inr (.inr ⟨raw, rfl, .inr ⟨message, .inl hreport⟩⟩)
      | valueError message => exact .inr (.inr ⟨raw, rfl, .inr ⟨message, .inr hreport⟩⟩)
      | recursionError => trivial
      | overflowError => trivial
      | protocolError kind message => trivial
  | _ => exact .inr (.inl fun _ h => nomatch h)

theorem Finished.fail {pinned : Meta} {d : List (PyValue × PyValue)} {w : Net} (h : Finished py cfg k pinned d w)
    (hinfra : isStatus "infra_error" d) : Between py cfg (k + 1) w.fail := by
  obtain ⟨⟨path, deadline, wait, reply, hheard, hd⟩, _, _⟩ := h
  obtain ⟨r, hlast, hstep, hattempt, _, hreply⟩ := hheard.getLast
  have hgoing : Going py cfg k w := by
    refine hheard.going hd ⟨fun hs => ?_, fun hs => ?_⟩
    · exact absurd (isStatus_inj hinfra hs) (by decide)
    · obtain hs | hs := hs
      · exact absurd (isStatus_inj hinfra hs) (by decide)
      · exact absurd (isStatus_inj hinfra hs) (by decide)
  exact hgoing.fail ⟨r, hlast, hattempt, .infra hreply hd (by rw [hstep]; rfl) hinfra⟩

theorem accept_ending {pinned : Meta} {d : List (PyValue × PyValue)} (hnot : ¬isStatus "infra_error" d) :
    Prog.Ends (Finished py cfg k pinned d) (Prog.ofExcept (accept py pinned d))
      (fun report w => Ended py cfg (.ok report) w) fun e w => Ended py cfg (.error e) w := by
  have haccept := accept_spec py pinned d
  have hdone : ∀ w, Finished py cfg k pinned d w → isStatus "done" d := by
    intro w hw
    obtain h | h := hw.2.1
    · exact h
    · exact absurd h hnot
  have hgoing : (∀ s, accept py pinned d ≠ .error (.stray s)) → ∀ w, Finished py cfg k pinned d w →
      Going py cfg k w := by
    intro hstray w hw
    obtain ⟨path, deadline, wait, reply, hheard, hd⟩ := hw.1
    refine hheard.going hd ⟨fun _ => hstray, fun hs => ?_⟩
    obtain hs | hs := hs
    · exact absurd (isStatus_inj (hdone w hw) hs) (by decide)
    · exact absurd (isStatus_inj (hdone w hw) hs) (by decide)
  refine Prog.Ends.ofExcept ?_ ?_
  · intro report hreport w hw
    rw [hreport] at haccept
    obtain ⟨hunder, raw, hraw, hread⟩ := haccept
    obtain ⟨path, deadline, wait, reply, hheard, hd⟩ := hw.1
    obtain ⟨r, hlast, hstep, _, _, hreply⟩ := hheard.getLast
    refine ⟨(hgoing (fun s hs => by rw [hreport] at hs; exact nomatch hs) w hw).conforms, r, hlast, ?_⟩
    exact ⟨path, deadline, wait, pinned, hw.2.2, hstep, reply, d, raw, hreply, hd, hdone w hw, hunder, hraw, hread⟩
  · intro e he w hw
    rw [he] at haccept
    obtain ⟨path, deadline, wait, reply, hheard, hd⟩ := hw.1
    obtain ⟨r, hlast, hstep, _, _, hreply⟩ := hheard.getLast
    cases e with
    | connectionError message => exact haccept.elim
    | evalInfraError message => exact haccept.elim
    | unfinished => trivial
    | evalProtocolError message =>
      refine ⟨(hgoing (fun s hs => by rw [he] at hs; exact nomatch hs) w hw).conforms, r, hlast, ?_⟩
      obtain hdrift | hreport | ⟨raw, hraw, hbad⟩ := haccept
      · exact .drift hreply hd hstep (hdone w hw) hdrift
      · exact .noReport hreply hd (by rw [hstep]; rfl) (hdone w hw) hreport
      · exact .badReport hreply hd (by rw [hstep]; rfl) (hdone w hw) hraw hbad
    | stray s =>
      intro hc
      obtain ⟨q, hq, hcovered⟩ := hheard.uncovered (by
        intro d' hd' ht
        rw [hd] at hd'
        cases hd'
        exact ht.1 (hdone w hw) s he)
      exact hcovered (hc.1 q hq)

theorem attempts_ending (code : Text) (fuel left : ℕ) : ∀ k lastError, k + left = cfg.maxAttempts →
    Prog.Ends (Between py cfg k) (attempts py cfg code fuel left lastError)
      (fun report w => Ended py cfg (.ok report) w) fun e w => Ended py cfg (.error e) w := by
  induction left with
  | zero =>
    intro k lastError hk
    refine Prog.Ends.bind (Prog.Ends.get (Q := fun _ w => Between py cfg k w) fun w hw => hw) fun v => ?_
    refine Prog.Ends.raise ?_
    intro w hw
    refine ⟨⟨hw.covered, ?_⟩, by rw [hw.failed, ← hk, Nat.add_zero], hw.transient⟩
    intro a hpos hlt _
    exact hw.waited a hpos (by omega)
  | succ left ih =>
    intro k lastError hk
    have hthis : cfg.maxAttempts - (left + 1) = k := by omega
    have hnext : ∀ message, Prog.Ends (Between py cfg (k + 1)) (attempts py cfg code fuel left message) _ _ :=
      fun message => ih (k + 1) message (by omega)
    rw [attempts, hthis]
    refine Prog.Ends.bind (backoff_ending (by omega)) fun _ => ?_
    refine Prog.Ends.bind (Prog.Ends.modify (Q := fun _ => Going py cfg k) ?_) fun _ => ?_
    · intro w hw
      exact ⟨⟨hw.1.covered, hw.1.failed, hw.1.transient, hw.1.waited⟩, rfl, hw.2⟩
    refine Prog.Ends.bind (gradeOnce_ending fuel).attempt fun outcome => ?_
    cases outcome with
    | error e =>
      cases e with
      | connectionError message =>
        exact Prog.Ends.bind (Prog.Ends.modify (Q := fun _ => Between py cfg (k + 1)) fun w hw => hw.1.fail hw.2)
          fun _ => hnext message
      | evalInfraError message => exact Prog.Ends.raise fun w hw => hw.elim
      | evalProtocolError message => exact Prog.Ends.raise fun w hw => ⟨hw.1.conforms, hw.2⟩
      | stray s =>
        refine Prog.Ends.raise ?_
        intro w hw hc
        obtain ⟨r, hr, hcovered⟩ := hw
        exact hcovered (hc.1 r hr)
      | unfinished => exact Prog.Ends.raise fun _ _ => trivial
    | ok result =>
      dsimp only
      split
      · rename_i hinfra
        exact Prog.Ends.bind (Prog.Ends.modify (Q := fun _ => Between py cfg (k + 1)) fun w hw => hw.fail hinfra)
          fun _ => hnext _
      · rename_i hnot
        exact accept_ending hnot

def Whole {α : Type} (x : Except Raised α) : Prop := x ≠ .error .unfinished

theorem replyOf_whole (step : Step) (a : Answer) : Whole (replyOf step a) := by
  unfold replyOf
  intro h
  split at h
  · rename_i e he
    obtain ⟨message, rfl⟩ | ⟨s, rfl⟩ := urllibTransport_error he
    · exact nomatch h
    · exact nomatch h
  · unfold checkStatus protocolError at h
    split at h
    · exact nomatch h
    · split at h
      · exact nomatch h
      · split at h
        · exact nomatch h
        · exact nomatch h

theorem object_whole (x : PyValue) : Whole (object x) := by
  unfold object
  intro h
  split at h
  · exact nomatch h
  · split at h
    · exact nomatch h
    · exact nomatch h

theorem metaOf_whole (d : List (PyValue × PyValue)) : Whole (metaOf py d) := by
  intro h
  obtain ⟨⟨message, hm⟩, _⟩ := metaOf_error h
  exact nomatch hm

theorem jobOf_whole (d : List (PyValue × PyValue)) : Whole (jobOf py d) := by
  unfold jobOf protocolError
  intro h
  split at h
  · exact nomatch h
  · exact nomatch h

theorem accept_whole (pinned : Meta) (d : List (PyValue × PyValue)) : Whole (accept py pinned d) := by
  intro h
  have hspec := accept_spec py pinned d
  rw [h] at hspec
  exact hspec

theorem sleep_whole (v : FloatValue) (D : Option ℚ) (w : Net) : Whole (sleep v D w).1 := by
  unfold sleep
  cases refused v with
  | none => exact fun h => nomatch h
  | some s => exact fun h => nomatch h

theorem backoff_whole (k : ℕ) (w : Net) : Whole (backoff cfg k w).1 := by
  unfold backoff
  split
  · exact fun h => nomatch h
  · split
    · exact fun h => nomatch h
    · exact sleep_whole _ _ w

variable {α β : Type} {w : Net}

abbrev Stops (m : ℕ → Prog Net Raised α) (w : Net) : Prop := Prog.Settles .unfinished m w

theorem Stops.after {m : Prog Net Raised α} {f : ℕ → α → Prog Net Raised β} (hm : Whole (m w).1)
    (hf : ∀ a w', m w = (.ok a, w') → Stops (fun n => f n a) w') : Stops (fun n => m >>= f n) w :=
  (Prog.Settles.const hm).bind fun a w' h => hf a w' h.choose_spec

theorem Stops.ofExcept {x : Except Raised α} {f : ℕ → α → Prog Net Raised β} (hx : Whole x)
    (hf : ∀ a, Stops (fun n => f n a) w) : Stops (fun n => Prog.ofExcept x >>= f n) w := by
  refine Stops.after hx ?_
  intro a w' h
  rw [← (Prod.mk.inj h).2]
  exact hf a

theorem Stops.request {step : Step} {f : ℕ → HttpReply → Prog Net Raised β}
    (hf : ∀ reply, Stops (fun n => f n reply) (w.receive step)) :
    Stops (fun n => Remote.request step >>= f n) w := by
  refine Stops.after (replyOf_whole _ _) ?_
  intro reply w' h
  rw [← (Prod.mk.inj h).2]
  exact hf reply

theorem pollLoop_turn {path : Text} {deadline wait : ℚ} {pinned : Meta}
    (hnext : w.clock + (w.traffic.answers w.position).took < deadline → ∀ wait (w' : Net), w'.traffic = w.traffic →
      w'.position = w.position + 1 → w.clock + (w.traffic.answers w.position).took ≤ w'.clock →
      Stops (fun fuel => pollLoop py cfg path deadline pinned fuel wait) w') :
    Stops (fun fuel => pollLoop py cfg path deadline pinned fuel wait) w := by
  refine Prog.Settles.succ (Stops.request fun reply => Stops.ofExcept (object_whole _) fun d => ?_)
  dsimp only
  split
  · exact .const fun h => nomatch h
  split
  · exact .const fun h => nomatch h
  refine Stops.after (fun h => nomatch h) ?_
  intro v w' h
  cases h
  split
  · exact .const fun h => nomatch h
  · rename_i hearly
    refine Stops.after (sleep_whole _ _ _) ?_
    intro _ w' hsleep
    unfold sleep at hsleep
    split at hsleep
    · rw [← (Prod.mk.inj hsleep).2]
      exact hnext (not_le.mp hearly) _ _ rfl rfl (le_add_of_nonneg_right (slept_nonneg _))
    · exact nomatch (Prod.mk.inj hsleep).1

theorem pollLoop_stops (path : Text) (deadline : ℚ) (pinned : Meta) (n : ℕ) : ∀ wait (w : Net),
    deadline ≤ w.clock + ∑ i ∈ Finset.range n, (w.traffic.answers (w.position + i)).took →
    Stops (fun fuel => pollLoop py cfg path deadline pinned fuel wait) w := by
  induction n with
  | zero =>
    intro wait w hn
    refine pollLoop_turn fun hearly => ?_
    have htook := (w.traffic.answers w.position).took_nonneg
    rw [Finset.sum_range_zero, add_zero] at hn
    linarith
  | succ n ih =>
    intro wait w hn
    refine pollLoop_turn fun _ wait' w' htraffic hposition hclock => ih wait' w' ?_
    rw [Finset.sum_range_succ', Nat.add_zero] at hn
    rw [htraffic, hposition]
    simp only [Nat.add_right_comm _ 1, Nat.add_assoc] at hn ⊢
    linarith

theorem poll_stops (pinned : Meta) (jobId : PyStr) : Stops (fun fuel => poll py cfg fuel pinned jobId) w := by
  refine Stops.after (fun h => nomatch h) ?_
  intro v w' h
  cases h
  split
  · exact .const fun h => nomatch h
  · obtain ⟨n, hn⟩ := w.traffic.passes (cfg.jobTimeoutS + ∑ i ∈ Finset.range w.position, (w.traffic.answers i).took)
    refine pollLoop_stops _ _ pinned n _ w ?_
    have hlonger : ∑ i ∈ Finset.range n, (w.traffic.answers i).took ≤
        ∑ i ∈ Finset.range (w.position + n), (w.traffic.answers i).took :=
      Finset.sum_le_sum_of_subset_of_nonneg (Finset.range_mono (Nat.le_add_left _ _))
        fun i _ _ => (w.traffic.answers i).took_nonneg
    rw [Finset.sum_range_add] at hlonger
    linarith

theorem ensureMeta_stops : Stops (fun _ => ensureMeta py) w := by
  refine Stops.after (fun h => nomatch h) fun v w' _ => ?_
  split
  · exact .const fun h => nomatch h
  · refine Stops.request fun reply => Stops.ofExcept (object_whole _) fun d => Stops.ofExcept (metaOf_whole d) fun p => ?_
    exact .const fun h => nomatch h

theorem submit_stops : Stops (fun _ => submit py) w :=
  Stops.request fun _ => Stops.ofExcept (object_whole _) fun d => .const (jobOf_whole d)

theorem gradeOnce_stops : Stops (fun fuel => gradeOnce py cfg fuel) w := by
  refine ensureMeta_stops.bind fun pinned w' _ => submit_stops.bind fun jobId w'' _ => ?_
  exact (poll_stops pinned jobId).bind fun envelope w''' _ => .const fun h => nomatch h

theorem attempts_stops (code : Text) (left : ℕ) : ∀ lastError (w : Net),
    Stops (fun fuel => attempts py cfg code fuel left lastError) w := by
  induction left with
  | zero => exact fun lastError w => .const fun h => nomatch h
  | succ left ih =>
    intro lastError w
    refine Stops.after (backoff_whole _ w) fun _ w' _ => Stops.after (fun h => nomatch h) fun _ w'' _ => ?_
    refine gradeOnce_stops.attempt fun outcome w''' hwhole _ => ?_
    split
    · exact Stops.after (fun h => nomatch h) fun _ w _ => ih _ w
    · exact .const fun h => hwhole (congrArg _ (Except.error.inj h))
    · split
      · exact Stops.after (fun h => nomatch h) fun _ w _ => ih _ w
      · exact .const (accept_whole _ _)

end

/-- A call comes to an end, and it ends as it should if and only if what it received is what the client is made for. -/
theorem failure_taxonomy (py : Builtins) (cfg : RemoteEvalConfig) (code : Text) (traffic : Traffic) (clock : ℚ)
    (pinned : Option Meta) : ∃ n result w, result ≠ .error .unfinished ∧
      (∀ fuel, n ≤ fuel → grade py cfg code fuel { traffic, clock, pinned } = (result, w)) ∧
      (Taxonomy py cfg result w ↔ Conforms py cfg w) := by
  have hstops : Stops (fun fuel => attempts py cfg code fuel cfg.maxAttempts "no attempt made".toList)
    { traffic, clock, pinned } := attempts_stops code cfg.maxAttempts _ _
  obtain ⟨n, ⟨result, w⟩, hwhole, hrun⟩ := hstops
  refine ⟨n, result, w, hwhole, hrun, ?_⟩
  have hstart : Between py cfg 0 { traffic, clock, pinned } :=
    ⟨fun _ h => (nomatch h), rfl, fun _ h => (nomatch h), fun _ _ h => absurd h (Nat.not_lt_zero _)⟩
  have hend := attempts_ending code n cfg.maxAttempts 0 "no attempt made".toList (Nat.zero_add _) _ hstart
  have hlast : attempts py cfg code n cfg.maxAttempts "no attempt made".toList { traffic, clock, pinned } =
    (result, w) := hrun n le_rfl
  rw [hlast] at hend
  cases result with
  | ok report => exact ⟨fun _ => hend.1, fun _ => hend.2⟩
  | error e =>
    cases e with
    | connectionError message => exact ⟨fun h => h.elim, fun _ => hend.2⟩
    | evalInfraError message => exact ⟨fun _ => hend.1, fun _ => hend.2⟩
    | evalProtocolError message => exact ⟨fun _ => hend.1, fun _ => hend.2⟩
    | stray s => exact ⟨fun h => h.elim, fun h => absurd h hend⟩
    | unfinished => exact absurd rfl hwhole

theorem list_reply : ∃ w, grade sampleBuiltins {} "1".toList 9
    { traffic := .starting [] (.opened 200 (.ok (.list [.int 1])) []) } = (.error (.stray .attributeError), w) ∧
    ¬Taxonomy sampleBuiltins {} (.error (.stray .attributeError)) w :=
  ⟨_, rfl, id⟩

end EvoHarness.Core.Remote
