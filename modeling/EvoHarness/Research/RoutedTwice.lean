import EvoHarness.Research.Promotion
import EvoHarness.Research.Deeds

/-! The same call of the router twice: the first may die at any of its writes. -/
namespace EvoHarness.Research
open PyText Hoare

variable {o : Router} {w w' : World o} {experimentId : Text}

def Stored (w : World o) (requestId : Text) : Prop := ∃ q ∈ w.requests, q.requestId = requestId

structure Grows (w w' : World o) : Prop where
  experiments : w'.experiments = w.experiments
  requests : w.requests <+: w'.requests
  routed : ∃ es, w'.routed = w.routed ++ es ∧ ∀ e ∈ es, e.disposition = .card → Stored w' e.requestId

theorem Stored.grows {id : Text} (h : Stored w id) (hg : w.requests <+: w'.requests) : Stored w' id := by
  obtain ⟨q, hq, hid⟩ := h
  exact ⟨q, hg.subset hq, hid⟩

theorem Grows.refl (w : World o) : Grows w w := ⟨rfl, List.prefix_refl _, [], by simp, by simp⟩

theorem Grows.trans (u v w : World o) (huv : Grows u v) (hvw : Grows v w) : Grows u w := by
  obtain ⟨es, hes, hstored⟩ := huv.routed
  obtain ⟨fs, hfs, hstored'⟩ := hvw.routed
  refine ⟨hvw.experiments.trans huv.experiments, huv.requests.trans hvw.requests, es ++ fs,
    by rw [hfs, hes, List.append_assoc], ?_⟩
  intro e he hcard
  cases List.mem_append.mp he with
  | inl he => exact (hstored e he hcard).grows hvw.requests
  | inr he => exact hstored' e he hcard

theorem Grows.of_same (he : w'.experiments = w.experiments) (hr : w'.requests = w.requests)
    (hrows : w'.routed = w.routed) : Grows w w' :=
  ⟨he, hr ▸ List.prefix_refl _, [], by simpa using hrows, by simp⟩

theorem effect_moves {R : World o → World o → Prop} {f torn : World o → World o} (htorn : ∀ w, R w (torn w))
    (h : ∀ w n, R w (f { w with lifetime := n })) : Prog.Moves R (effect f torn) := by
  intro w
  unfold effect
  split
  · next hlife =>
    have hw := h w none
    rw [← hlife] at hw
    exact hw
  · exact htorn w
  · next n _ => exact h w (some n)

theorem requireExperiment_moves {R : World o → World o → Prop} (hrefl : ∀ w, R w w) (experimentId : Text) :
    Prog.Moves R (requireExperiment experimentId : Routes o Unit) := by
  intro w
  unfold requireExperiment
  rw [Prog.bind_ok Prog.get_run]
  split
  · exact hrefl w
  · exact hrefl w

theorem loadExperiment_moves {R : World o → World o → Prop} (hrefl : ∀ w, R w w) (experimentId : Text) :
    Prog.Moves R (loadExperiment experimentId : Routes o ExperimentSpec) := by
  intro w
  unfold loadExperiment
  rw [Prog.bind_ok Prog.get_run]
  cases w.experiments experimentId with
  | none => exact hrefl w
  | some loaded => cases loaded <;> exact hrefl w

theorem priorAssessments_moves {R : World o → World o → Prop} (hrefl : ∀ w, R w w) (experimentId : Text) :
    Prog.Moves R (priorAssessments experimentId : Routes o (List ClaimAssessment)) := by
  intro w
  unfold priorAssessments
  rw [Prog.bind_ok Prog.get_run]
  cases (w.assessments experimentId).assessments with
  | none => exact hrefl w
  | some prior => exact hrefl w

theorem appendRoutedEvent_grows {e : RoutedEvent} (h : e.disposition = .card → Stored w e.requestId) :
    Grows w (appendRoutedEvent e w).2 := by
  have hrequire := requireExperiment_moves (o := o) (R := fun u v => v = u) (fun _ => rfl) e.experimentId w
  unfold appendRoutedEvent
  cases hw : requireExperiment e.experimentId w with
  | mk r v =>
    rw [hw] at hrequire
    obtain rfl := hrequire
    cases r with
    | error fault =>
      rw [Prog.bind_error hw]
      exact Grows.refl v
    | ok _ =>
      rw [Prog.bind_ok hw]
      unfold effect
      split
      · exact ⟨rfl, List.prefix_refl _, [e], rfl, fun f hf hcard =>
          (List.mem_singleton.mp hf) ▸ h ((List.mem_singleton.mp hf) ▸ hcard)⟩
      · exact Grows.refl v
      · exact ⟨rfl, List.prefix_refl _, [e], rfl, fun f hf hcard =>
          (List.mem_singleton.mp hf) ▸ h ((List.mem_singleton.mp hf) ▸ hcard)⟩

theorem store_grows (r : DecisionRequest o.enc) (w : World o) (n : Option ℕ) :
    Grows w (store r { w with lifetime := n }) := by
  unfold store
  split
  · exact Grows.of_same rfl rfl rfl
  · exact ⟨rfl, List.prefix_append _ _, [], by simp [World.insert], by simp⟩

theorem submit_grows (r : DecisionRequest o.enc) : Prog.Moves Grows (Research.submit r) := by
  unfold Research.submit
  refine Prog.Moves.bind Grows.trans (loadExperiment_moves Grows.refl _) fun _ => ?_
  refine Prog.Moves.bind Grows.trans (Prog.Moves.get Grows.refl) fun v => ?_
  split
  · exact effect_moves Grows.refl (store_grows r)
  · split
    · exact Prog.Moves.raise Grows.refl _
    · exact Prog.Moves.pure Grows.refl _

theorem clock_grows : Prog.Moves Grows (nowForEvent : Routes o ℚ) := fun _ => Grows.of_same rfl rfl rfl

theorem gateCheck_moves {R : World o → World o → Prop} (hrefl : ∀ w, R w w) (eventKind experimentId : Text)
    (projected : ℚ) : Prog.Moves R (gateCheck eventKind experimentId projected : Routes o GateDecision) := by
  intro w
  unfold gateCheck
  rw [Prog.bind_ok Prog.get_run]
  generalize precheck o.gateFormats eventKind experimentId projected _ = d
  cases d <;> exact hrefl w

theorem routeAuto_grows (eventKind experimentId detail runId : Text) (projected : ℚ) :
    Prog.Moves Grows (routeAuto eventKind experimentId detail runId projected : Routes o Unit) := by
  unfold routeAuto
  refine Prog.Moves.bind Grows.trans (gateCheck_moves Grows.refl _ _ _) fun gated => ?_
  split
  · exact Prog.Moves.raise Grows.refl _
  · refine Prog.Moves.bind Grows.trans clock_grows fun createdAt w => appendRoutedEvent_grows ?_
    intro hcard
    cases hcard

theorem noticeConflict_grows (prior : List ClaimAssessment) (a : ClaimAssessment) (experimentId runId : Text) :
    Prog.Moves Grows (noticeConflict prior a experimentId runId : Routes o Unit) := by
  unfold noticeConflict
  cases prior.find? (conflicts · a) with
  | none => exact Prog.Moves.pure Grows.refl ()
  | some old =>
    simp only [notifyConflict]
    refine Prog.Moves.bind Grows.trans clock_grows fun noticed => ?_
    -- no notification is a card
    have hrow : ∀ e : RoutedEvent, e.disposition = .notification →
        Prog.Moves Grows (appendRoutedEvent e : Routes o Unit) := by
      intro e he w
      apply appendRoutedEvent_grows
      intro hcard
      rw [he] at hcard
      cases hcard
    split
    · exact Prog.Moves.bind Grows.trans clock_grows fun createdAt => hrow _ rfl
    · exact Prog.Moves.bind Grows.trans (Prog.Moves.pure Grows.refl _) fun createdAt => hrow _ rfl

theorem recordAssessment_grows (a : ClaimAssessment) (experimentId runId : Text) :
    Prog.Moves Grows (recordAssessment a experimentId runId : Routes o Unit) := by
  unfold recordAssessment
  refine Prog.Moves.bind Grows.trans (priorAssessments_moves Grows.refl _) fun prior => ?_
  refine Prog.Moves.bind Grows.trans (noticeConflict_grows _ _ _ _) fun _ => ?_
  split
  · unfold appendAssessment
    refine Prog.Moves.bind Grows.trans (requireExperiment_moves Grows.refl _) fun _ => ?_
    exact effect_moves (fun _ => Grows.of_same rfl rfl rfl) fun _ _ => Grows.of_same rfl rfl rfl
  · exact Prog.Moves.pure Grows.refl ()

theorem submit_ok {r : DecisionRequest o.enc} (h : Research.submit r w = (.ok (), w')) :
    Stored w' r.requestId ∧ (Stored w r.requestId → w' = w) := by
  have hload := loadExperiment_moves (o := o) (R := fun u v => v = u) (fun _ => rfl) r.experimentId w
  unfold Research.submit at h
  cases hw : loadExperiment r.experimentId w with
  | mk result v =>
    rw [hw] at hload
    obtain rfl := hload
    cases result with
    | error e =>
      rw [Prog.bind_error hw] at h
      cases h
    | ok spec =>
      rw [Prog.bind_ok hw, Prog.bind_ok Prog.get_run] at h
      cases hfind : v.requests.find? (·.requestId = r.requestId) with
      | none =>
        have hnew : ¬ Stored v r.requestId := by
          intro hstored
          obtain ⟨q, hq, hid⟩ := hstored
          exact List.find?_eq_none.mp hfind q hq (decide_eq_true hid)
        refine ⟨?_, fun hstored => absurd hstored hnew⟩
        rw [hfind] at h
        have hstore : ∀ u : World o, Stored (store r u) r.requestId := by
          intro u
          unfold store
          split
          · next hmem => exact List.mem_map.mp hmem
          · exact ⟨r, by simp [World.insert], rfl⟩
        simp only [effect] at h
        split at h
        · exact (Prod.mk.inj h).2 ▸ hstore v
        · cases (Prod.mk.inj h).1
        · exact (Prod.mk.inj h).2 ▸ hstore _
      | some stored =>
        rw [hfind] at h
        have hid : stored.requestId = r.requestId := by simpa using List.find?_some hfind
        have hstored : Stored v r.requestId := ⟨stored, List.mem_of_find?_eq_some hfind, hid⟩
        simp only at h
        split at h
        · cases h
        · obtain rfl := (Prod.mk.inj h).2
          exact ⟨hstored, fun _ => rfl⟩

theorem routeCard_grows (eventKind experimentId detail runId : Text) (r : DecisionRequest o.enc) :
    Prog.Moves Grows (routeCard eventKind experimentId r detail runId) := by
  unfold routeCard
  split
  · exact Prog.Moves.raise Grows.refl _
  · split
    · exact Prog.Moves.raise Grows.refl _
    · refine Prog.Moves.bind_then Grows.trans (submit_grows r) fun w _ w' hw => ?_
      rw [Prog.bind_ok nowForEvent_run]
      have hstored := (submit_ok hw).1
      exact Grows.trans w' { w' with eventTicks := w'.eventTicks + 1 } _ (Grows.of_same rfl rfl rfl)
        (appendRoutedEvent_grows fun _ => hstored)

theorem route_grows (eventKind experimentId : Text) (card : Option (DecisionRequest o.enc)) (detail runId : Text)
    (projected : ℚ) : Prog.Moves Grows (route eventKind experimentId card detail runId projected) := by
  unfold route
  split
  · exact routeAuto_grows _ _ _ _ _
  · exact Prog.Moves.raise Grows.refl _
  · exact Prog.Moves.raise Grows.refl _
  · exact routeCard_grows _ _ _ _ _

theorem timeOf_grows (time : Option ℚ) : Prog.Moves Grows (timeOf time : Routes o ℚ) := by
  cases time with
  | none => exact fun _ => Grows.of_same rfl rfl rfl
  | some t => exact Prog.Moves.pure Grows.refl t

theorem ofExcept_grows {α : Type} (x : Except Fault α) : Prog.Moves Grows (ofExcept x : Routes o α) := by
  cases x with
  | ok a => exact Prog.Moves.pure Grows.refl a
  | error e => exact Prog.Moves.raise Grows.refl _

theorem perform_grows (experimentId : Text) (d : Deed o) : Prog.Moves Grows (d.perform experimentId) := by
  cases d with
  | auto detail runId => exact route_grows _ _ _ _ _ _
  | assess a runId => exact recordAssessment_grows _ _ _
  | card eventKind runId body time =>
    refine Prog.Moves.bind Grows.trans (timeOf_grows time) fun createdAt => ?_
    refine Prog.Moves.bind Grows.trans (ofExcept_grows body) fun b => ?_
    refine Prog.Moves.bind Grows.trans (ofExcept_grows _) fun card => ?_
    exact route_grows _ _ _ _ _ _
  | submit r => exact submit_grows r
  | fail e => exact Prog.Moves.raise Grows.refl _

theorem performAll_grows (experimentId : Text) (ds : List (Deed o)) : Prog.Moves Grows (performAll experimentId ds) :=
  Prog.Moves.forEach Grows.refl Grows.trans (perform_grows experimentId) ds

/-- What is read later was read before, and what was read before is still there. -/
def Keeps (experimentId : Text) (w w' : World o) : Prop :=
  ∀ later, (w'.assessments experimentId).assessments = some later →
    ∃ prior, (w.assessments experimentId).assessments = some prior ∧ prior <+: later

theorem Keeps.of_same (h : w'.assessments = w.assessments) : Keeps experimentId w w' :=
  fun later hlater => ⟨later, h ▸ hlater, List.prefix_refl _⟩

theorem Keeps.trans {u v w : World o} (huv : Keeps experimentId u v) (hvw : Keeps experimentId v w) :
    Keeps experimentId u w := by
  intro later hlater
  obtain ⟨middle, hmiddle, hlast⟩ := hvw later hlater
  obtain ⟨prior, hprior, hfirst⟩ := huv middle hmiddle
  exact ⟨prior, hprior, hfirst.trans hlast⟩

def Deed.Done (experimentId : Text) (w : World o) : Deed o → Prop
  | .assess a _ => ∀ prior, (w.assessments experimentId).assessments = some prior → prior.any (sameVerdict · a) = true
  | .card _ _ body _ => ∀ b, body = .ok b → ∀ t r, DecisionRequest.make o.enc b t = .ok r → Stored w r.requestId
  | .submit r => Stored w r.requestId
  | _ => True

theorem Deed.Done.grows {d : Deed o} (h : d.Done experimentId w) (hg : Grows w w') (hk : Keeps experimentId w w') :
    d.Done experimentId w' := by
  cases d with
  | assess a runId =>
    intro later hlater
    obtain ⟨prior, hprior, hprefix⟩ := hk later hlater
    obtain ⟨old, hold, hsame⟩ := List.any_eq_true.mp (h prior hprior)
    exact List.any_eq_true.mpr ⟨old, hprefix.subset hold, hsame⟩
  | card eventKind runId body time => exact fun b hb t r hr => (h b hb t r hr).grows hg.requests
  | submit r => exact Stored.grows h hg.requests
  | auto detail runId => trivial
  | fail e => trivial

def Quiet (w w' : World o) : Prop := w'.requests = w.requests ∧ w'.assessments = w.assessments

theorem Quiet.refl (w : World o) : Quiet w w := ⟨rfl, rfl⟩

theorem Quiet.trans (u v w : World o) (huv : Quiet u v) (hvw : Quiet v w) : Quiet u w :=
  ⟨hvw.1.trans huv.1, hvw.2.trans huv.2⟩

theorem appendRoutedEvent_quiet (e : RoutedEvent) : Prog.Moves Quiet (appendRoutedEvent e : Routes o Unit) :=
  Prog.Moves.bind Quiet.trans (requireExperiment_moves Quiet.refl _) fun _ =>
    effect_moves Quiet.refl fun _ _ => ⟨rfl, rfl⟩

theorem clock_quiet : Prog.Moves Quiet (nowForEvent : Routes o ℚ) := fun _ => ⟨rfl, rfl⟩

theorem timeOf_quiet (time : Option ℚ) : Prog.Moves Quiet (timeOf time : Routes o ℚ) := by
  cases time with
  | none => exact fun _ => ⟨rfl, rfl⟩
  | some t => exact Prog.Moves.pure Quiet.refl t

theorem routeAuto_quiet (eventKind experimentId detail runId : Text) (projected : ℚ) :
    Prog.Moves Quiet (routeAuto eventKind experimentId detail runId projected : Routes o Unit) := by
  unfold routeAuto
  refine Prog.Moves.bind Quiet.trans (gateCheck_moves Quiet.refl _ _ _) fun gated => ?_
  split
  · exact Prog.Moves.raise Quiet.refl _
  · exact Prog.Moves.bind Quiet.trans clock_quiet fun createdAt => appendRoutedEvent_quiet _

theorem noticeConflict_quiet (prior : List ClaimAssessment) (a : ClaimAssessment) (experimentId runId : Text) :
    Prog.Moves Quiet (noticeConflict prior a experimentId runId : Routes o Unit) := by
  unfold noticeConflict
  cases prior.find? (conflicts · a) with
  | none => exact Prog.Moves.pure Quiet.refl ()
  | some old =>
    simp only [notifyConflict]
    refine Prog.Moves.bind Quiet.trans clock_quiet fun noticed => ?_
    split
    · exact Prog.Moves.bind Quiet.trans clock_quiet fun createdAt => appendRoutedEvent_quiet _
    · exact Prog.Moves.bind Quiet.trans (Prog.Moves.pure Quiet.refl _) fun createdAt => appendRoutedEvent_quiet _

theorem quiet_of_moves {α : Type} {m : Routes o α} {r : Except RouteFault α} (hm : Prog.Moves Quiet m)
    (h : m w = (r, w')) : Quiet w w' := by
  have hw := hm w
  rwa [h] at hw

theorem grows_of_moves {α : Type} {m : Routes o α} {r : Except RouteFault α} (hm : Prog.Moves Grows m)
    (h : m w = (r, w')) : Grows w w' := by
  have hw := hm w
  rwa [h] at hw

def SameLog (w w' : World o) : Prop := w'.assessments = w.assessments

theorem SameLog.refl (w : World o) : SameLog w w := rfl

theorem SameLog.trans (u v w : World o) (huv : SameLog u v) (hvw : SameLog v w) : SameLog u w := Eq.trans hvw huv

theorem submit_log (r : DecisionRequest o.enc) : Prog.Moves SameLog (Research.submit r) := by
  have hstore : ∀ (w : World o) (n : Option ℕ), SameLog w (store r { w with lifetime := n }) := by
    intro w n
    unfold store
    split
    · exact rfl
    · exact rfl
  unfold Research.submit
  refine Prog.Moves.bind SameLog.trans (loadExperiment_moves SameLog.refl _) fun _ => ?_
  refine Prog.Moves.bind SameLog.trans (Prog.Moves.get SameLog.refl) fun v => ?_
  split
  · exact effect_moves SameLog.refl hstore
  · split
    · exact Prog.Moves.raise SameLog.refl _
    · exact Prog.Moves.pure SameLog.refl _

theorem recordAssessment_ok {a : ClaimAssessment} {runId : Text} (h : recordAssessment a experimentId runId w = (.ok (), w')) :
    (Deed.assess a runId : Deed o).Done experimentId w' ∧ Keeps experimentId w w' ∧
      ((Deed.assess a runId : Deed o).Done experimentId w → Quiet w w') := by
  unfold recordAssessment at h
  cases hprior : (w.assessments experimentId).assessments with
  | none =>
    rw [Prog.bind_error (priorAssessments_unreadable hprior)] at h
    cases h
  | some prior =>
    rw [Prog.bind_ok (priorAssessments_run hprior)] at h
    obtain ⟨_, v, hv, h⟩ := Prog.bind_returns h
    have hquiet := quiet_of_moves (noticeConflict_quiet _ a experimentId runId) hv
    cases hany : prior.any (sameVerdict · a) with
    | true =>
      rw [hany] at h
      obtain rfl : v = w' := (Prod.mk.inj h).2
      refine ⟨?_, Keeps.of_same hquiet.2, fun _ => hquiet⟩
      intro later hlater
      rw [hquiet.2, hprior] at hlater
      exact Option.some.inj hlater ▸ hany
    | false =>
      rw [hany] at h
      have happend : appendAssessment experimentId a v = (.ok (), w') := h
      unfold appendAssessment at happend
      obtain ⟨_, u, hu, happend⟩ := Prog.bind_returns happend
      have hrequire := quiet_of_moves (requireExperiment_moves Quiet.refl _) hu
      have hlog : w'.assessments experimentId = (w.assessments experimentId).append a := by
        rw [← hquiet.2, ← hrequire.2]
        unfold effect at happend
        split at happend
        · rw [← (Prod.mk.inj happend).2, World.withLog_self]
        · cases (Prod.mk.inj happend).1
        · rw [← (Prod.mk.inj happend).2, World.withLog_self]
      have hread : ∀ later, (w'.assessments experimentId).assessments = some later → later = prior ++ [a] := by
        intro later hlater
        rw [hlog] at hlater
        exact AssessmentLog.assessments_append hprior hlater
      refine ⟨?_, ?_, ?_⟩
      · intro later hlater
        rw [hread later hlater]
        simp [sameVerdict]
      · intro later hlater
        exact ⟨prior, hprior, hread later hlater ▸ List.prefix_append _ _⟩
      · intro hdone
        rw [hdone prior hprior] at hany
        cases hany

theorem routeCard_ok {eventKind detail runId : Text} {r : DecisionRequest o.enc}
    (h : routeCard eventKind experimentId r detail runId w = (.ok (), w')) :
    Stored w' r.requestId ∧ SameLog w w' ∧ (Stored w r.requestId → Quiet w w') := by
  unfold routeCard at h
  split at h
  · cases h
  · split at h
    · cases h
    · obtain ⟨_, v, hv, h⟩ := Prog.bind_returns h
      obtain ⟨createdAt, u, hu, h⟩ := Prog.bind_returns h
      have hquiet := Quiet.trans _ _ _ (quiet_of_moves clock_quiet hu) (quiet_of_moves (appendRoutedEvent_quiet _) h)
      refine ⟨(submit_ok hv).1.grows (hquiet.1 ▸ List.prefix_refl _), ?_, ?_⟩
      · have hlog := submit_log r w
        rw [hv] at hlog
        exact SameLog.trans _ _ _ hlog hquiet.2
      · intro hstored
        obtain rfl := (submit_ok hv).2 hstored
        exact hquiet

theorem offerCard_ok {eventKind runId : Text} {body : Except Fault RequestBody} {time : Option ℚ}
    (h : offerCard eventKind experimentId runId body time w = (.ok (), w')) :
    (Deed.card eventKind runId body time : Deed o).Done experimentId w' ∧ SameLog w w' ∧
      ((Deed.card eventKind runId body time : Deed o).Done experimentId w → Quiet w w') := by
  unfold offerCard at h
  obtain ⟨createdAt, v, hv, h⟩ := Prog.bind_returns h
  have hclock := quiet_of_moves (timeOf_quiet time) hv
  cases body with
  | error e => cases h
  | ok b =>
    rw [ofExcept_ok, pure_bind] at h
    cases hr : DecisionRequest.make o.enc b createdAt with
    | error e =>
      rw [hr] at h
      cases h
    | ok r =>
      rw [hr, ofExcept_ok, pure_bind] at h
      unfold route at h
      cases hhuman : requiresHuman eventKind with
      | false =>
        rw [hhuman] at h
        cases h
      | true =>
        rw [hhuman] at h
        have hok := routeCard_ok h
        refine ⟨?_, SameLog.trans _ _ _ hclock.2 hok.2.1, ?_⟩
        · intro b' hb' t r' hr'
          obtain rfl := Except.ok.inj hb'
          exact requestId_timeless hr hr' ▸ hok.1
        · intro hdone
          have hstored : Stored v r.requestId := (hdone b rfl createdAt r hr).grows (hclock.1 ▸ List.prefix_refl _)
          exact Quiet.trans _ _ _ hclock (hok.2.2 hstored)

theorem perform_ok {d : Deed o} (h : d.perform experimentId w = (.ok (), w')) :
    d.Done experimentId w' ∧ Keeps experimentId w w' ∧ (d.Done experimentId w → Quiet w w') := by
  cases d with
  | auto detail runId =>
    have hhuman : requiresHuman "record-outcome".toList = false := by decide
    have hroute : routeAuto "record-outcome".toList experimentId detail runId 0 w = (.ok (), w') := by
      rw [← h]
      show _ = route "record-outcome".toList experimentId none detail runId 0 w
      unfold route
      rw [hhuman]
    have hquiet := quiet_of_moves (routeAuto_quiet _ _ _ _ _) hroute
    exact ⟨trivial, Keeps.of_same hquiet.2, fun _ => hquiet⟩
  | assess a runId => exact recordAssessment_ok h
  | card eventKind runId body time =>
    have hok := offerCard_ok h
    exact ⟨hok.1, Keeps.of_same hok.2.1, hok.2.2⟩
  | submit r =>
    have hok := submit_ok h
    have hlog := submit_log r w
    rw [show Research.submit r w = (.ok (), w') from h] at hlog
    refine ⟨hok.1, Keeps.of_same hlog, fun hdone => ?_⟩
    rw [hok.2 hdone]
    exact Quiet.refl w
  | fail e => cases h

theorem performAll_ok {ds : List (Deed o)} :
    ∀ {w : World o}, performAll experimentId ds w = (.ok (), w') →
      (∀ d ∈ ds, d.Done experimentId w') ∧ Keeps experimentId w w' ∧
        ((∀ d ∈ ds, d.Done experimentId w) → Quiet w w') := by
  induction ds with
  | nil =>
    intro w h
    obtain rfl := (Prod.mk.inj h).2
    exact ⟨by simp, Keeps.of_same rfl, fun _ => Quiet.refl w⟩
  | cons d ds ih =>
    intro w h
    obtain ⟨_, v, hv, h⟩ := Prog.bind_returns h
    have hgrows := grows_of_moves (performAll_grows experimentId ds) h
    have hd := perform_ok hv
    have hds := ih h
    refine ⟨?_, hd.2.1.trans hds.2.1, ?_⟩
    · intro d' hd'
      cases List.mem_cons.mp hd' with
      | inl hd' => exact hd' ▸ hd.1.grows hgrows hds.2.1
      | inr hd' => exact hds.1 d' hd'
    · intro hdone
      have hgrows' := grows_of_moves (perform_grows experimentId d) hv
      exact Quiet.trans _ _ _ (hd.2.2 (hdone d (by simp)))
        (hds.2.2 fun d' hd' => (hdone d' (by simp [hd'])).grows hgrows' hd.2.1)

/-- A call from the stores of `w`, with its own clock readings and as long as the process lives. -/
def RouterCall.callAt (c : RouterCall o) (cardClock eventClock : ℕ → ℚ) (lifetime : Option ℕ) (cut : ℕ) (w : World o) :
    Except RouteFault Unit × World o :=
  c.perform { w with cardClock, eventClock, cardTicks := 0, eventTicks := 0, lifetime, cut }

structure Harmless (before : World o) (first second : Except RouteFault Unit × World o) : Prop where
  returns : second.1 = .ok ()
  unchanged : first.1 = .ok () → second.2.requests = first.2.requests ∧ second.2.assessments = first.2.assessments
  matched : ∀ e ∈ first.2.routed.drop before.routed.length, e ∈ second.2.routed ∧
    (e.disposition = .card → ∃ q ∈ second.2.requests, q.requestId = e.requestId)

/-- A call that lives returns exactly if its requests can be built, no other is stored under an id of theirs, and each
of its readings of the log succeeds. -/
theorem perform_returns (c : RouterCall o) (w : World o) (hfrozen : Frozen w c.experimentId) (hlife : w.lifetime = none) :
    (c.perform w).1 = .ok () ↔ Welcome c.experimentId w c.deeds := by
  rw [perform_deeds]
  exact performAll_returns c.deeds w hfrozen hlife (deeds_fit c)

def exampleRouter : Router where
  enc := { requestHash := (·.question), canonicalObject := .ok, repr := id, reprs := List.flatten }
  fm := plainFormats
  gateFormats := { requestedBudget := fun _ => none, f4 := fun _ => [], str := fun _ => [] }
  f2 _ := []
  f4 _ := []
  showFitness _ := []
  assessmentJson a := a.claimHash
  budgetJson s := s.justification
  budgetHash s := s.justification
  flipJson s := s.promotedCandidateId
  flipHash s := s.promotedCandidateId
  budget _ := { approvedUsd := 0, spentUsd := 0, trusted := true }

def emptyStores : World exampleRouter where
  experiments _ := some (.ok { experimentId := ['e'] })
  unique := by simp

def objectiveVerdict (status : Verdict) : ClaimAssessment where
  claimHash := ['c']
  claimKind := .objectiveMet
  status := status
  assessorHash := ['g']
  evidenceRefs := [['r']]
  reasons := []

def verdictCall (status : Verdict) : RouterCall exampleRouter :=
  .assessment (objectiveVerdict status) ['e'] ['c'] ['r'] []

theorem perform_returns_supported : ((verdictCall .supported).perform emptyStores).1 = .ok () :=
  (perform_returns (verdictCall .supported) emptyStores ⟨{ experimentId := ['e'] }, rfl⟩ rfl).mpr
    ⟨⟨_, rfl, by simp [Agrees, emptyStores]⟩, [], rfl, trivial⟩

end EvoHarness.Research
