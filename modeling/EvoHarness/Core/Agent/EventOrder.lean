import EvoHarness.Core.Agent.EventNumbers
import EvoHarness.Library.Runs

/-! The order of the events that sinks are given for a session, over any runs of the native backend. -/
namespace EvoHarness.Core.Agent
open PyText Hoare Runs

/-- The numbers of the events rise from each to the next, and no event comes twice. -/
def InOrder (events : List AgentEvent) : Prop := (events.map (·.sequence)).Pairwise (· < ·) ∧ events.Nodup

theorem inOrder_iff {events : List AgentEvent} : InOrder events ↔ (events.map (·.sequence)).Pairwise (· < ·) := by
  refine ⟨fun h => h.1, fun h => ⟨h, ?_⟩⟩
  rw [List.pairwise_map] at h
  refine h.imp fun hlt heq => ?_
  rw [heq] at hlt
  exact lt_irrefl _ hlt

instance (events : List AgentEvent) : Decidable (InOrder events) := decidable_of_iff _ inOrder_iff.symm

/-- The sessions of a backend, and what has been given to sinks since each was last released. -/
structure Life (σ : Type) where
  backend : σ
  delivered : List AgentEvent := []

def Life.eventsOf {σ : Type} (life : Life σ) (id : Text) : List AgentEvent :=
  life.delivered.filter (·.sessionId = id)

def Life.forget {σ : Type} (life : Life σ) (id : Text) : List AgentEvent :=
  life.delivered.filter (·.sessionId ≠ id)

def InOrderEach (events : List AgentEvent) : Prop := ∀ id, InOrder (events.filter (·.sessionId = id))

def Life.Ordered {σ : Type} (life : Life σ) : Prop := InOrderEach life.delivered

section
variable {old new : List AgentEvent} {id : Text} {first n : ℕ}

def Below (counter : Text → ℕ) (events : List AgentEvent) : Prop := ∀ e ∈ events, e.sequence < counter e.sessionId

theorem starts_of_eq {α : Type} {xs ys : List α} (h : xs = ys) : xs <+: ys := by rw [h]

theorem mem_of_stamps (h : new.map AgentEvent.stamp <+: stampsFrom id first n) {e : AgentEvent} (he : e ∈ new) :
    e.sessionId = id ∧ first ≤ e.sequence ∧ e.sequence < first + n := by
  have hmem : e.stamp ∈ stampsFrom id first n := h.subset (List.mem_map_of_mem he)
  obtain ⟨k, hk, heq⟩ := List.mem_map.mp hmem
  obtain ⟨hid, hseq⟩ := Prod.ext_iff.mp heq
  have hrange := List.mem_range'_1.mp hk
  change id = e.sessionId at hid
  change k = e.sequence at hseq
  exact ⟨hid.symm, by omega, by omega⟩

theorem stamps_exact (h : new.map AgentEvent.stamp <+: stampsFrom id first n) :
    new.map AgentEvent.stamp = stampsFrom id first new.length := by
  have htake := List.prefix_iff_eq_take.mp h
  have hlength := h.length_le
  rw [List.length_map, stampsFrom, List.length_map, List.length_range'] at hlength
  rwa [List.length_map, stampsFrom, ← List.map_take, List.take_range'_of_length_ge hlength] at htake

theorem filter_stamps (h : new.map AgentEvent.stamp <+: stampsFrom id first n) (other : Text) :
    new.filter (·.sessionId = other) = if other = id then new else [] := by
  by_cases hother : other = id
  · rw [if_pos hother, List.filter_eq_self]
    exact fun e he => decide_eq_true ((mem_of_stamps h he).1.trans hother.symm)
  · rw [if_neg hother, List.filter_eq_nil_iff]
    intro e he heq
    exact hother ((of_decide_eq_true heq).symm.trans (mem_of_stamps h he).1)

theorem sequences_rise (h : new.map AgentEvent.stamp <+: stampsFrom id first n) :
    (new.map (·.sequence)).Pairwise (· < ·) := by
  have hsub : new.map (·.sequence) <+: (stampsFrom id first n).map Prod.snd := by
    have hmap := h.map Prod.snd
    rwa [List.map_map] at hmap
  have hrange : (stampsFrom id first n).map Prod.snd = List.range' first n := by
    unfold stampsFrom
    rw [List.map_map]
    exact List.map_id _
  rw [hrange] at hsub
  exact List.Pairwise.sublist hsub.sublist List.pairwise_lt_range'

/-- Events numbered on from a counter that has passed all earlier ones of the session keep the order. -/
theorem InOrderEach.append (hold : InOrderEach old) (h : new.map AgentEvent.stamp <+: stampsFrom id first n)
    (hfirst : ∀ e ∈ old, e.sessionId = id → e.sequence < first) : InOrderEach (old ++ new) := by
  intro other
  rw [List.filter_append, filter_stamps h]
  by_cases hother : other = id
  · rw [if_pos hother, inOrder_iff, List.map_append, List.pairwise_append]
    refine ⟨(hold other).1, sequences_rise h, ?_⟩
    intro x hx y hy
    obtain ⟨e, he, rfl⟩ := List.mem_map.mp hx
    obtain ⟨e', he', rfl⟩ := List.mem_map.mp hy
    obtain ⟨hmem, hid⟩ := List.mem_filter.mp he
    exact (hfirst e hmem ((of_decide_eq_true hid).trans hother)).trans_le (mem_of_stamps h he').2.1
  · rw [if_neg hother, List.append_nil]
    exact hold other

theorem inOrderEach_append_iff (hold : InOrderEach old) (hn : 1 ≤ n)
    (h : new.map AgentEvent.stamp = stampsFrom id first n) :
    InOrderEach (old ++ new) ↔ ∀ e ∈ old, e.sessionId = id → e.sequence < first := by
  refine ⟨fun hnew e he hid => ?_, hold.append (starts_of_eq h)⟩
  obtain ⟨n, rfl⟩ : ∃ m, n = m + 1 := ⟨n - 1, by omega⟩
  cases new with
  | nil => exact nomatch h
  | cons e' rest =>
    obtain ⟨hid', hseq⟩ := Prod.ext_iff.mp (List.cons.inj h).1
    change e'.sessionId = id at hid'
    change e'.sequence = first at hseq
    have hrise := (hnew id).1
    rw [List.filter_append, List.map_append, List.pairwise_append] at hrise
    rw [← hseq]
    refine hrise.2.2 e.sequence ?_ e'.sequence ?_
    · exact List.mem_map_of_mem (List.mem_filter.mpr ⟨he, decide_eq_true hid⟩)
    · exact List.mem_map_of_mem (List.mem_filter.mpr ⟨List.mem_cons_self, decide_eq_true hid'⟩)

theorem InOrderEach.forget (hold : InOrderEach old) (released : Text) :
    InOrderEach (old.filter (·.sessionId ≠ released)) := by
  intro id
  rw [inOrder_iff]
  have hsub : ((old.filter (·.sessionId ≠ released)).filter (·.sessionId = id)).Sublist
      (old.filter (·.sessionId = id)) := (List.filter_sublist).filter _
  exact List.Pairwise.sublist (hsub.map _) (hold id).1

end

def Host.counter (host : Host) (id : Text) : ℕ :=
  ((host.sessions.find? (·.sessionId = id)).map (·.nextEventSequence)).getD 0

def GivenTo (w : World) (given : List AgentEvent) : Prop :=
  given.map AgentEvent.stamp <+: w.stamps ∧ (w.run.hasSink = false → given = []) ∧
    (w.run.hasSink = true → w.run.sinkError = none → given = w.run.events)

instance (w : World) (given : List AgentEvent) : Decidable (GivenTo w given) :=
  inferInstanceAs (Decidable (_ ∧ _ ∧ _))

/-- What an owner does with the backend, with what the sink was given. A run that is interrupted leaves
its session somewhere on the way; the counter has passed every event that was recorded. -/
inductive NativeCall where
  | run (request : AgentSessionRequest) (fuel : ℕ) (given : List AgentEvent)
  | interrupted (request : AgentSessionRequest) (fuel : ℕ) (given : List AgentEvent) (left : SessionState)
  | release (id : Text)

section
variable (b : NativeToolAgentBackend) (env : ℕ → Reply)

def opened (host : Host) (request : AgentSessionRequest) : Except Fault SessionState :=
  openSession b host.sessions request (env host.asked).isDir (env (host.asked + 1)).freshId

def nativeStep (life : Life Host) : NativeCall → Option (Life Host)
  | .run request fuel given =>
    let next : Life Host := ⟨(life.backend.run b env request fuel).2, life.delivered ++ given⟩
    match opened b env life.backend request with
    | .error _ => if given = [] then some next else none
    | .ok s => if GivenTo (life.backend.runOf b env request s fuel).2 given then some next else none
  | .interrupted request fuel given left =>
    match opened b env life.backend request with
    | .error _ => none
    | .ok s =>
      let w := (life.backend.runOf b env request s fuel).2
      if left.sessionId = s.sessionId ∧ s.nextEventSequence + given.length ≤ left.nextEventSequence ∧
          given.map AgentEvent.stamp <+: w.stamps then
        some ⟨⟨w.asked, w.now, storeSession life.backend.sessions left⟩, life.delivered ++ given⟩
      else none
  | .release id => some ⟨life.backend.release id, life.forget id⟩

variable {b env}

theorem opened_counter {host : Host} {request : AgentSessionRequest} {s : SessionState}
    (h : opened b env host request = .ok s) : s.nextEventSequence = host.counter s.sessionId := by
  unfold opened openSession at h
  split at h
  · exact nomatch h
  · split at h
    · unfold create at h
      split at h
      · exact nomatch h
      · split at h
        · exact nomatch h
        · split at h
          · exact nomatch h
          · split at h
            · exact nomatch h
            · split at h
              · exact nomatch h
              · next hfresh =>
                cases h
                have hnone : host.sessions.find? (·.sessionId = (env (host.asked + 1)).freshId) = none := by
                  rw [List.find?_eq_none]
                  intro t ht heq
                  exact hfresh (List.any_eq_true.mpr ⟨t, ht, heq⟩)
                show 0 = _
                rw [Host.counter, hnone]
                rfl
    · next id _ =>
      unfold resume at h
      split at h
      · exact nomatch h
      · next t hfind =>
        split at h
        · exact nomatch h
        · split at h
          · exact nomatch h
          · cases h
            have hid : t.sessionId = id := by simpa using List.find?_some hfind
            show t.nextEventSequence = host.counter t.sessionId
            rw [hid, Host.counter, hfind]
            rfl

theorem find?_kept {sessions : List SessionState} {id other : Text} (h : other ≠ id) :
    (sessions.filter (·.sessionId ≠ id)).find? (·.sessionId = other) = sessions.find? (·.sessionId = other) := by
  rw [List.find?_filter]
  congr 1
  funext s
  by_cases hs : s.sessionId = other
  · simp [hs, h]
  · simp [hs]

theorem counter_store (host : Host) (asked : ℕ) (now : ℚ≥0) (s : SessionState) (id : Text) :
    (Host.mk asked now (storeSession host.sessions s)).counter id =
      if id = s.sessionId then s.nextEventSequence else host.counter id := by
  unfold Host.counter storeSession
  by_cases hid : id = s.sessionId
  · rw [if_pos hid, List.find?_cons_of_pos (by simp [hid])]
    rfl
  · rw [if_neg hid, List.find?_cons_of_neg (by simpa using fun h => hid h.symm), find?_kept hid]

theorem counter_release (host : Host) {released id : Text} (h : id ≠ released) :
    (host.release released).counter id = host.counter id := by
  unfold Host.counter Host.release
  dsimp only
  rw [find?_kept h]

/-- The order, and that the counter of every session has passed what was delivered for it. -/
structure Numbered (life : Life Host) : Prop where
  ordered : life.Ordered
  below : Below life.backend.counter life.delivered

/-- A session that goes on from its counter and takes as many numbers as it gives out. -/
theorem Numbered.store {life : Life Host} (h : Numbered life) {s left : SessionState} {given : List AgentEvent}
    {asked n : ℕ} {now : ℚ≥0} (hfirst : s.nextEventSequence = life.backend.counter s.sessionId)
    (hid : left.sessionId = s.sessionId)
    (hgiven : given.map AgentEvent.stamp <+: stampsFrom s.sessionId s.nextEventSequence n)
    (hleft : s.nextEventSequence + given.length ≤ left.nextEventSequence) :
    Numbered ⟨⟨asked, now, storeSession life.backend.sessions left⟩, life.delivered ++ given⟩ := by
  have hexact : given.map AgentEvent.stamp <+: stampsFrom s.sessionId s.nextEventSequence given.length :=
    starts_of_eq (stamps_exact hgiven)
  constructor
  · refine h.ordered.append hgiven fun e he heq => ?_
    rw [hfirst, ← heq]
    exact h.below e he
  · intro e he
    rw [counter_store]
    cases List.mem_append.mp he with
    | inl hold =>
      have hbelow := h.below e hold
      split
      · next heq =>
        rw [heq, hid, ← hfirst] at hbelow
        omega
      · exact hbelow
    | inr hnew =>
      obtain ⟨heid, _, hlt⟩ := mem_of_stamps hexact hnew
      rw [if_pos (heid.trans hid.symm)]
      omega

theorem Numbered.step {life next : Life Host} {call : NativeCall} (h : Numbered life)
    (hstep : nativeStep b env life call = some next) : Numbered next := by
  cases call with
  | run request fuel given =>
    unfold nativeStep at hstep
    cases ho : opened b env life.backend request with
    | error e =>
      simp only [ho] at hstep
      by_cases hnone : given = []
      · rw [if_pos hnone] at hstep
        cases hstep
        unfold opened at ho
        have hsame : (life.backend.run b env request fuel).2.sessions = life.backend.sessions := by
          unfold Host.run
          rw [ho]
        rw [hnone, List.append_nil]
        refine ⟨h.ordered, fun e he => ?_⟩
        show e.sequence < Host.counter _ _
        rw [Host.counter, hsame]
        exact h.below e he
      · rw [if_neg hnone] at hstep
        exact nomatch hstep
    | ok s =>
      simp only [ho] at hstep
      by_cases hheard : GivenTo (life.backend.runOf b env request s fuel).2 given
      · rw [if_pos hheard] at hstep
        cases hstep
        obtain ⟨hid, n, hn, hstamps⟩ := Host.runOf_counts b env life.backend request s fuel
        have hfirst := opened_counter ho
        have hgiven := hheard.1
        rw [hstamps] at hgiven
        have hlength : given.length ≤ n := by
          have := hgiven.length_le
          rwa [List.length_map, stampsFrom, List.length_map, List.length_range'] at this
        unfold opened at ho
        have hrun : (life.backend.run b env request fuel).2 =
            ⟨(life.backend.runOf b env request s fuel).2.asked, (life.backend.runOf b env request s fuel).2.now,
              storeSession life.backend.sessions (life.backend.runOf b env request s fuel).2.session⟩ := by
          unfold Host.run
          rw [ho]
        rw [hrun]
        exact h.store hfirst hid hgiven (by omega)
      · rw [if_neg hheard] at hstep
        exact nomatch hstep
  | interrupted request fuel given left =>
    unfold nativeStep at hstep
    cases ho : opened b env life.backend request with
    | error e =>
      simp only [ho] at hstep
      exact nomatch hstep
    | ok s =>
      simp only [ho] at hstep
      split at hstep
      · next hleft =>
        cases hstep
        obtain ⟨_, n, _, hstamps⟩ := Host.runOf_counts b env life.backend request s fuel
        have hgiven := hleft.2.2
        rw [hstamps] at hgiven
        exact h.store (opened_counter ho) hleft.1 hgiven hleft.2.1
      · exact nomatch hstep
  | release id =>
    cases hstep
    refine ⟨h.ordered.forget id, fun e he => ?_⟩
    obtain ⟨hmem, hne⟩ := List.mem_filter.mp he
    show e.sequence < Host.counter _ _
    rw [counter_release _ (of_decide_eq_true hne)]
    exact h.below e hmem

theorem numbered_start : Numbered ⟨{}, []⟩ :=
  ⟨fun _ => ⟨List.Pairwise.nil, List.nodup_nil⟩, fun _ he => nomatch he⟩

theorem native_everywhere {life : Life Host} (h : Numbered life) (calls : List NativeCall) :
    Everywhere (nativeStep b env) Life.Ordered life calls := by
  induction calls generalizing life with
  | nil => exact h.ordered
  | cons call calls ih => exact ⟨h.ordered, fun next hstep => ih (h.step hstep)⟩

end

end EvoHarness.Core.Agent
