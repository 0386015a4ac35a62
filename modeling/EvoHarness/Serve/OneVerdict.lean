import EvoHarness.Serve.Service
import EvoHarness.Library.Runs

/-! One verdict for each key, in every interleaving. -/
namespace EvoHarness.Serve
open PyText Json Evaluation

def Status.Terminal (s : Status) : Prop := s = .done ∨ s = .infraError

def Status.rank : Status → ℕ
  | .queued => 0
  | .running => 1
  | .done | .infraError => 2

def Entry.key (e : Entry) : PyValue := member e.payload "idempotency_key".toList

def Entry.Live (e : Entry) : Prop := e.job.status ≠ .infraError

structure Job.Explained (j : Job) : Prop where
  report : j.report.isSome = true ↔ j.status = .done
  error : j.error.isSome = true ↔ j.status = .infraError

/-- `submit` returned the id of a job, or raised a `ValueError` and entered none. -/
def Submission.Proper (s : Service) : Submission → Prop
  | .returned jobId => ∃ e ∈ s.entries, e.job.jobId = jobId
  | .raised fault entered => (∃ message, fault = .valueError message) ∧ entered = false

structure Good (py : Builtins) (s : Service) : Prop where
  one : ∀ e ∈ s.entries, ∀ e' ∈ s.entries, e.Live → e'.Live → py.same e.key e'.key = true → e = e'
  explained : ∀ e ∈ s.entries, e.job.Explained
  finished : ∀ e ∈ s.entries, e.phase = .finished → e.job.status.Terminal
  submissions : ∀ x ∈ s.submissions, x.Proper s

/-- What a step does to the jobs: each moves on, and stays as it is once it is terminal; and to raise without a new job is
to leave the tables as they are. -/
structure Onward (s t : Service) : Prop where
  jobs : ∀ e ∈ s.entries, ∃ e' ∈ t.entries, e'.job.jobId = e.job.jobId ∧ e'.payload = e.payload ∧
    e.job.status.rank ≤ e'.job.status.rank ∧ (e.job.status.Terminal → e'.job = e.job)
  unchanged : ∀ fault, t.submissions = s.submissions ++ [.raised fault false] →
    t.entries = s.entries ∧ t.byKey = s.byKey ∧ t.counter = s.counter

/-- A payload that is an object, and whose key can be looked up if the rest of it is in order; or a text or a list in which
a key is missing. -/
def Readable (py : Builtins) : PyValue → Prop
  | .dict members => (∀ k ∈ requiredSubmitKeys, hasMember members k = true) →
    equalsOne (member members "protocol_version".toList) = true → hashable (member members "idempotency_key".toList) = true
  | x => ∃ k ∈ requiredSubmitKeys, contains py k x = .ok false

def Safe (py : Builtins) (s : Service) : Event → Prop
  | .submit payload => Readable py payload
  | .hand _ answer => answer = .taken
  | .grade jobId graded _ _ => ∀ e, s.find jobId = some e → hintsUsable e.payload = true →
    graded ≠ .exits ∧ graded ≠ .infraError none
  | _ => True

theorem jobName_injective : Function.Injective jobName := by
  have hread : ∀ n, Nat.ofDigitChars 10 ((jobName n).drop 4) 0 = n := by
    intro n
    have hdrop : (jobName n).drop 4 = List.replicate (4 - (Nat.toDigits 10 n).length) '0' ++ Nat.toDigits 10 n := rfl
    rw [hdrop, Nat.ofDigitChars_append, Nat.ofDigitChars_replicate_zero, Nat.mul_zero, Nat.ofDigitChars_ten_toDigits]
  intro n m h
  rw [← hread n, ← hread m, h]

section
variable {py : Builtins} {key k : PyValue} {jobId : Text}

theorem lookup_cons (p : PyValue × Text) (rest : List (PyValue × Text)) :
    lookup py key (p :: rest) = if py.same key p.1 = true then some p.2 else lookup py key rest := by
  unfold lookup
  rw [List.find?_cons]
  split <;> simp_all

theorem lookup_register (byKey : List (PyValue × Text)) : lookup py k (register py key jobId byKey) =
    if py.same k key = true then some jobId else lookup py k byKey := by
  induction byKey with
  | nil => rw [register, lookup_cons]
  | cons p rest ih =>
    rw [register]
    split
    · rename_i hp
      rw [lookup_cons, lookup_cons]
      by_cases hk : py.same k key = true
      · rw [if_pos hk, if_pos (py.same_trans _ _ _ hk hp)]
      · have hother : ¬py.same k p.1 = true := fun h => hk (py.same_trans _ _ _ h (py.same_symm _ _ hp))
        rw [if_neg hk, if_neg hother, if_neg hother]
    · rename_i hp
      rw [lookup_cons, ih, lookup_cons]
      by_cases hk : py.same k key = true
      · have hother : ¬py.same k p.1 = true := fun h => hp (py.same_trans _ _ _ (py.same_symm _ _ hk) h)
        rw [if_pos hk, if_neg hother, if_pos hk]
      · rw [if_neg hk, if_neg hk]

theorem mem_register {byKey : List (PyValue × Text)} {p : PyValue × Text} (h : p ∈ register py key jobId byKey) :
    p.2 = jobId ∨ ∃ q ∈ byKey, q.2 = p.2 := by
  induction byKey with
  | nil =>
    rw [register, List.mem_singleton] at h
    exact .inl (congrArg Prod.snd h)
  | cons q rest ih =>
    rw [register] at h
    split at h
    · obtain rfl | h := List.mem_cons.mp h
      · exact .inl rfl
      · exact .inr ⟨p, List.mem_cons_of_mem q h, rfl⟩
    · obtain rfl | h := List.mem_cons.mp h
      · exact .inr ⟨p, List.mem_cons_self, rfl⟩
      · obtain h | ⟨r, hr, heq⟩ := ih h
        · exact .inl h
        · exact .inr ⟨r, List.mem_cons_of_mem q hr, heq⟩

theorem lookup_congr (h : py.same key k = true) (byKey : List (PyValue × Text)) :
    lookup py key byKey = lookup py k byKey := by
  induction byKey with
  | nil => rfl
  | cons p rest ih =>
    rw [lookup_cons, lookup_cons, ih]
    by_cases hk : py.same k p.1 = true
    · rw [if_pos hk, if_pos (py.same_trans _ _ _ h hk)]
    · rw [if_neg hk, if_neg fun hkey => hk (py.same_trans _ _ _ (py.same_symm _ _ h) hkey)]

theorem mem_of_lookup {byKey : List (PyValue × Text)} (h : lookup py key byKey = some jobId) :
    ∃ p ∈ byKey, p.2 = jobId := by
  obtain ⟨p, hp, heq⟩ := Option.map_eq_some_iff.mp h
  exact ⟨p, List.mem_of_find?_eq_some hp, heq⟩

end

def Phase.Status (phase : Phase) (status : Serve.Status) : Prop :=
  match phase with
  | .admitted | .refused | .waiting => status = .queued
  | .grading => status = .running
  | .cleaning => status = .done
  | .finished => status ≠ .queued

structure Entry.Sound (e : Entry) : Prop where
  report : e.job.report.isSome = true ↔ e.job.status = .done
  error : e.job.error.isSome = true → e.job.status = .infraError
  phase : e.phase.Status e.job.status

/-- A worker that ended left a terminal job, and no job fails without an error. -/
structure Entry.Settled (e : Entry) : Prop where
  finished : e.phase = .finished → e.job.status.Terminal
  said : e.job.status = .infraError → e.job.error.isSome = true

structure Wellformed (py : Builtins) (s : Service) : Prop where
  names : s.entries.map (·.job.jobId) = (List.range s.counter).map fun i => jobName (i + 1)
  registered : ∀ p ∈ s.byKey, ∃ e ∈ s.entries, e.job.jobId = p.2
  keyed : ∀ e ∈ s.entries, e.Live → py.same e.key e.key = true → lookup py e.key s.byKey = some e.job.jobId
  sound : ∀ e ∈ s.entries, e.Sound

section
variable {py : Builtins} {s : Service} {e : Entry} {jobId : Text}

theorem find_some (h : s.find jobId = some e) : e ∈ s.entries ∧ e.job.jobId = jobId :=
  ⟨List.mem_of_find?_eq_some h, by simpa using List.find?_some h⟩

theorem Wellformed.nodup (h : Wellformed py s) : (s.entries.map (·.job.jobId)).Nodup := by
  rw [h.names]
  exact List.nodup_range.map fun i j hij => Nat.succ.inj (jobName_injective hij)

theorem Wellformed.eq_of_id (h : Wellformed py s) {e' : Entry} (he : e ∈ s.entries) (he' : e' ∈ s.entries)
    (hid : e.job.jobId = e'.job.jobId) : e = e' :=
  List.inj_on_of_nodup_map h.nodup he he' hid

theorem Wellformed.find (h : Wellformed py s) (he : e ∈ s.entries) : s.find e.job.jobId = some e := by
  cases hf : s.find e.job.jobId with
  | none =>
    have hno := List.find?_eq_none.mp hf e he
    simp at hno
  | some e' =>
    obtain ⟨hmem, hid⟩ := find_some hf
    rw [h.eq_of_id hmem he hid]

theorem Wellformed.one (h : Wellformed py s) : ∀ e ∈ s.entries, ∀ e' ∈ s.entries, e.Live → e'.Live →
    py.same e.key e'.key = true → e = e' := by
  intro e he e' he' hlive hlive' hsame
  have hself := py.same_trans _ _ _ hsame (py.same_symm _ _ hsame)
  have hself' := py.same_trans _ _ _ (py.same_symm _ _ hsame) hsame
  have hlookup := h.keyed e he hlive hself
  rw [lookup_congr hsame, h.keyed e' he' hlive' hself'] at hlookup
  exact (h.eq_of_id he' he (Option.some.inj hlookup)).symm

theorem wellformed_report (h : Wellformed py s) (x : Submission) : Wellformed py (s.report x) :=
  ⟨h.names, h.registered, h.keyed, h.sound⟩

theorem wellformed_enter (h : Wellformed py s) {r : Request}
    (hfree : ∀ e ∈ s.entries, e.Live → py.same e.key r.key = false) : Wellformed py (s.enter py r) := by
  refine ⟨?_, ?_, ?_, ?_⟩
  · show (s.entries ++ [_]).map _ = _
    rw [List.map_append, h.names, Service.enter, List.range_succ, List.map_append]
    rfl
  · intro p hp
    obtain hnew | ⟨q, hq, heq⟩ := mem_register hp
    · exact ⟨_, List.mem_append_right _ (List.mem_singleton_self _), hnew.symm⟩
    · obtain ⟨e, he, hid⟩ := h.registered q hq
      exact ⟨e, List.mem_append_left _ he, hid.trans heq⟩
  · intro e he hlive hself
    show lookup py e.key (register py r.key _ s.byKey) = _
    rw [lookup_register]
    obtain he | rfl := List.mem_append.mp he |>.imp_right List.mem_singleton.mp
    · rw [if_neg (by rw [hfree e he hlive]; exact Bool.false_ne_true)]
      exact h.keyed e he hlive hself
    · exact if_pos hself
  · intro e he
    obtain he | rfl := List.mem_append.mp he |>.imp_right List.mem_singleton.mp
    · exact h.sound e he
    · exact ⟨by simp, by simp, rfl⟩

structure Advances (e e' : Entry) : Prop where
  jobId : e'.job.jobId = e.job.jobId
  payload : e'.payload = e.payload
  live : e'.Live → e.Live
  rank : e.job.status.rank ≤ e'.job.status.rank
  terminal : e.job.status.Terminal → e'.job = e.job

theorem Advances.refl (e : Entry) : Advances e e := ⟨rfl, rfl, id, le_rfl, fun _ => rfl⟩

theorem mem_change {f : Entry → Entry} {e' : Entry} (h : e' ∈ (s.change jobId f).entries) :
    ∃ e ∈ s.entries, (e.job.jobId = jobId ∧ e' = f e) ∨ (e.job.jobId ≠ jobId ∧ e' = e) := by
  obtain ⟨e, he, heq⟩ := List.mem_map.mp h
  refine ⟨e, he, ?_⟩
  split at heq
  · rename_i hid
    exact .inl ⟨hid, heq.symm⟩
  · rename_i hid
    exact .inr ⟨hid, heq.symm⟩

section
variable (h : Wellformed py s) (hfind : s.find jobId = some e) {f : Entry → Entry}
include h hfind

theorem change_cases {P : Entry → Entry → Prop} (hf : P e (f e)) (hother : ∀ d ∈ s.entries, P d d) :
    ∀ e' ∈ (s.change jobId f).entries, ∃ d ∈ s.entries, P d e' := by
  intro e' he'
  obtain ⟨hmem, hid⟩ := find_some hfind
  obtain ⟨d, hd, ⟨hd', rfl⟩ | ⟨_, rfl⟩⟩ := mem_change he'
  · rw [h.eq_of_id hd hmem (hd'.trans hid.symm)]
    exact ⟨e, hmem, hf⟩
  · exact ⟨e', hd, hother e' hd⟩

theorem change_maps {P : Entry → Entry → Prop} (hf : P e (f e)) (hother : ∀ d ∈ s.entries, P d d) :
    ∀ d ∈ s.entries, ∃ e' ∈ (s.change jobId f).entries, P d e' := by
  intro d hd
  obtain ⟨hmem, hid⟩ := find_some hfind
  refine ⟨_, List.mem_map_of_mem hd, ?_⟩
  by_cases hd' : d.job.jobId = jobId
  · rw [if_pos hd', h.eq_of_id hd hmem (hd'.trans hid.symm)]
    exact hf
  · rw [if_neg hd']
    exact hother d hd

theorem wellformed_change (hf : Advances e (f e)) (hsound : (f e).Sound) : Wellformed py (s.change jobId f) := by
  have hcases := change_cases h hfind (P := fun d e' => Advances d e' ∧ e'.Sound) ⟨hf, hsound⟩
    fun d hd => ⟨.refl d, h.sound d hd⟩
  have hmaps := change_maps h hfind (P := Advances) hf fun d _ => .refl d
  refine ⟨?_, ?_, ?_, ?_⟩
  · obtain ⟨hmem, hid⟩ := find_some hfind
    refine Eq.trans ?_ h.names
    rw [Service.change, List.map_map]
    refine List.map_congr_left fun d hd => ?_
    rw [Function.comp_apply]
    by_cases hd' : d.job.jobId = jobId
    · rw [if_pos hd', h.eq_of_id hd hmem (hd'.trans hid.symm)]
      exact hf.jobId
    · rw [if_neg hd']
  · intro p hp
    obtain ⟨d, hd, hid⟩ := h.registered p hp
    obtain ⟨e', he', hadvances⟩ := hmaps d hd
    exact ⟨e', he', hadvances.jobId.trans hid⟩
  · intro e' he' hlive hself
    obtain ⟨d, hd, hadvances, _⟩ := hcases e' he'
    have hkey : e'.key = d.key := by rw [Entry.key, hadvances.payload, Entry.key]
    rw [hkey] at hself ⊢
    rw [hadvances.jobId]
    exact h.keyed d hd (hadvances.live hlive) hself
  · intro e' he'
    obtain ⟨_, _, _, hs⟩ := hcases e' he'
    exact hs

theorem onward_change (hf : Advances e (f e)) : Onward s (s.change jobId f) := by
  refine ⟨?_, ?_⟩
  · intro d hd
    obtain ⟨e', he', hadvances⟩ := change_maps h hfind (P := Advances) hf (fun d _ => .refl d) d hd
    exact ⟨e', he', hadvances.jobId, hadvances.payload, hadvances.rank, hadvances.terminal⟩
  · intro fault hsub
    have hlength : s.submissions.length = (s.submissions ++ [Submission.raised fault false]).length :=
      congrArg List.length hsub
    simp at hlength

end

theorem advances_phase (e : Entry) (phase : Phase) : Advances e { e with phase } := ⟨rfl, rfl, id, le_rfl, fun _ => rfl⟩

theorem not_terminal_queued (h : e.job.status = .queued) : ¬e.job.status.Terminal := by
  rw [h]
  rintro (h | h)
  · exact nomatch h
  · exact nomatch h

theorem not_terminal_running (h : e.job.status = .running) : ¬e.job.status.Terminal := by
  rw [h]
  rintro (h | h)
  · exact nomatch h
  · exact nomatch h

theorem Entry.Sound.undecided (h : e.Sound) (hopen : ¬e.job.status.Terminal) :
    e.job.report = none ∧ e.job.error = none := by
  constructor
  · by_contra hsome
    exact hopen (.inl (h.report.mp (Option.isSome_iff_ne_none.mpr hsome)))
  · by_contra hsome
    exact hopen (.inr (h.error (Option.isSome_iff_ne_none.mpr hsome)))

theorem explained_iff (h : e.Sound) :
    (e.job.Explained ∧ (e.phase = .finished → e.job.status.Terminal)) ↔ e.Settled :=
  ⟨fun hg => ⟨hg.2, hg.1.error.mpr⟩, fun hs => ⟨⟨h.report, h.error, hs.said⟩, hs.finished⟩⟩

theorem start_advances (workdir : Except Text Text) (h : e.Sound) (hqueued : e.job.status = .queued) :
    Advances e (e.start workdir) ∧ (e.start workdir).Sound := by
  obtain ⟨hreport, herror⟩ := h.undecided (not_terminal_queued hqueued)
  have hopen := not_terminal_queued hqueued
  have hlive : e.Live := by rw [Entry.Live, hqueued]; exact nofun
  cases workdir with
  | ok path =>
    refine ⟨⟨rfl, rfl, fun _ => hlive, by rw [hqueued]; exact Nat.zero_le _, fun ht => absurd ht hopen⟩, ?_, ?_, rfl⟩
    · simp [Entry.start, hreport]
    · simp [Entry.start, herror]
  | error message =>
    refine ⟨⟨rfl, rfl, fun _ => hlive, by rw [hqueued]; exact Nat.zero_le _, fun ht => absurd ht hopen⟩, ?_, ?_, ?_⟩
    · simp [Entry.start, hreport]
    · simp [Entry.start]
    · exact nofun

theorem grade_advances (verdict : Verdict) (elapsed : PyFloat) (h : e.Sound) (hrunning : e.job.status = .running) :
    Advances e (e.grade verdict elapsed) ∧ (e.grade verdict elapsed).Sound := by
  obtain ⟨hreport, herror⟩ := h.undecided (not_terminal_running hrunning)
  have hopen := not_terminal_running hrunning
  have hlive : e.Live := by rw [Entry.Live, hrunning]; exact nofun
  cases verdict with
  | report r =>
    refine ⟨⟨rfl, rfl, fun _ => hlive, by rw [hrunning]; exact Nat.le_succ 1, fun ht => absurd ht hopen⟩, ?_, ?_, rfl⟩
    · simp [Entry.grade]
    · simp [Entry.grade, herror]
  | infra message =>
    refine ⟨⟨rfl, rfl, fun _ => hlive, by rw [hrunning]; exact Nat.le_succ 1, fun ht => absurd ht hopen⟩, ?_, ?_, ?_⟩
    · simp [Entry.grade, hreport]
    · simp [Entry.grade]
    · exact nofun
  | unsaid =>
    refine ⟨⟨rfl, rfl, fun _ => hlive, by rw [hrunning]; exact Nat.le_succ 1, fun ht => absurd ht hopen⟩, ?_, ?_, ?_⟩
    · simp [Entry.grade, hreport]
    · simp [Entry.grade]
    · exact nofun
  | escapes =>
    refine ⟨advances_phase e .finished, h.report, h.error, ?_⟩
    show e.job.status ≠ .queued
    rw [hrunning]
    exact nofun

theorem contains_spec (py : Builtins) (payload : PyValue) :
    (∀ k, contains py k payload = .error .typeError) ∨ ∃ found : Text → Bool, ∀ k, contains py k payload = .ok (found k) := by
  cases payload with
  | dict items => exact .inr ⟨_, fun _ => rfl⟩
  | list xs => exact .inr ⟨_, fun _ => rfl⟩
  | tuple xs => exact .inr ⟨_, fun _ => rfl⟩
  | str s => exact .inr ⟨_, fun _ => rfl⟩
  | _ => exact .inl fun _ => rfl

theorem missingKeys_ok {payload : PyValue} {found : Text → Bool} (h : ∀ k, contains py k payload = .ok (found k))
    (ks : List Text) : missingKeys py payload ks = .ok (ks.filter fun k => !found k) := by
  induction ks with
  | nil => rfl
  | cons k ks ih =>
    rw [missingKeys, h, ih, List.filter_cons]
    cases found k <;> rfl

theorem filter_missing {found : Text → Bool} {ks : List Text} :
    (ks.filter fun k => !found k) ≠ [] ↔ ∃ k ∈ ks, found k = false := by
  rw [ne_eq, List.filter_eq_nil_iff]
  simp

theorem requestOf_readable {members : List (PyValue × PyValue)}
    (hhas : ∀ k ∈ requiredSubmitKeys, hasMember members k = true) :
    (∀ fault, requestOf py (.dict members) = .error fault → ∃ message, fault = .valueError message) ↔
      Readable py (.dict members) := by
  unfold requestOf Readable
  dsimp only
  by_cases hversion : equalsOne (member members "protocol_version".toList) = false
  · rw [if_pos hversion]
    refine iff_of_true (fun fault h => ⟨_, (Except.error.inj h).symm⟩) fun _ hone => ?_
    rw [hversion] at hone
    exact nomatch hone
  · rw [if_neg hversion]
    by_cases hkey : hashable (member members "idempotency_key".toList) = true
    · rw [dif_pos hkey]
      exact iff_of_true (fun _ h => nomatch h) fun _ _ => hkey
    · rw [dif_neg hkey]
      refine iff_of_false (fun h => ?_) fun h => hkey (h hhas (eq_true_of_ne_false hversion))
      obtain ⟨message, hm⟩ := h _ rfl
      exact nomatch hm

/-- What is raised for a payload is a `ValueError` exactly when it is readable. -/
theorem admission_readable (py : Builtins) (payload : PyValue) :
    (∀ fault, admission py payload = .error fault → ∃ message, fault = .valueError message) ↔ Readable py payload := by
  obtain hnone | ⟨found, hfound⟩ := contains_spec py payload
  · have hraised : admission py payload = .error .typeError := by
      unfold admission requiredSubmitKeys
      rw [missingKeys, hnone]
      rfl
    have hnot : ¬Readable py payload := by
      cases payload with
      | dict items => cases hnone []
      | _ =>
        rintro ⟨k, _, hk⟩
        rw [hnone] at hk
        cases hk
    refine iff_of_false ?_ hnot
    intro h
    obtain ⟨message, hm⟩ := h _ hraised
    cases hm
  · have hmissing := missingKeys_ok hfound requiredSubmitKeys
    by_cases hsome : ∃ k ∈ requiredSubmitKeys, found k = false
    · have hraised : ∃ message, admission py payload = .error (.valueError message) := by
        unfold admission
        rw [hmissing]
        exact ⟨_, if_pos (filter_missing.mpr hsome)⟩
      obtain ⟨message, hraised⟩ := hraised
      obtain ⟨k, hk, hlacks⟩ := hsome
      refine iff_of_true (fun fault h => ?_) ?_
      · rw [hraised, Except.error.injEq] at h
        exact ⟨message, h.symm⟩
      · have hcontains : contains py k payload = .ok false := by rw [hfound, hlacks]
        cases payload with
        | dict members =>
          intro hall
          have hhas := hall k hk
          rw [contains, Except.ok.injEq] at hcontains
          rw [hcontains] at hhas
          cases hhas
        | _ => exact ⟨k, hk, hcontains⟩
    · have hrequest : admission py payload = requestOf py payload := by
        unfold admission
        rw [hmissing]
        exact if_neg (filter_missing.not.mpr hsome)
      have hall : ∀ k ∈ requiredSubmitKeys, found k = true := fun k hk =>
        eq_true_of_ne_false fun hno => hsome ⟨k, hk, hno⟩
      rw [hrequest]
      by_cases hdict : ∃ members, payload = .dict members
      · obtain ⟨members, rfl⟩ := hdict
        have hhas : ∀ k ∈ requiredSubmitKeys, hasMember members k = true := by
          intro k hk
          have hk' := hfound k
          rw [contains, Except.ok.injEq] at hk'
          exact hk'.trans (hall k hk)
        exact requestOf_readable hhas
      · have hraised : requestOf py payload = .error .typeError := by
          unfold requestOf
          split
          · exact absurd ⟨_, rfl⟩ hdict
          · rfl
        have hnot : ¬Readable py payload := by
          unfold Readable
          split
          · exact absurd ⟨_, rfl⟩ hdict
          · rintro ⟨k, hk, hno⟩
            rw [hfound, hall k hk] at hno
            cases hno
        refine iff_of_false (fun h => ?_) hnot
        obtain ⟨message, hm⟩ := h _ hraised
        cases hm

theorem failed_reports (py : Builtins) (trace : Text) : ∃ r, failed py trace = .report r := by
  have hcoerced : ∃ r, coerceGrade py (failureGrade trace) = .ok r := ⟨_, rfl⟩
  obtain ⟨r, hr⟩ := hcoerced
  exact ⟨r, by rw [failed, hr]⟩

theorem verdictOf_settles {payload : List (PyValue × PyValue)} {graded : Graded} {trace : Text} :
    (verdictOf py payload graded trace ≠ .escapes ∧ verdictOf py payload graded trace ≠ .unsaid) ↔
      (hintsUsable payload = true → graded ≠ .exits ∧ graded ≠ .infraError none) := by
  unfold verdictOf
  have hfailed : ∀ trace, failed py trace ≠ .escapes ∧ failed py trace ≠ .unsaid := by
    intro trace
    obtain ⟨r, hr⟩ := failed_reports py trace
    rw [hr]
    exact ⟨nofun, nofun⟩
  by_cases hhints : hintsUsable payload = false
  · rw [if_pos hhints, hhints]
    exact iff_of_true (hfailed trace) fun h => nomatch h
  · rw [if_neg hhints]
    have htrue := eq_true_of_ne_false hhints
    cases graded with
    | returned raw =>
      refine iff_of_true ?_ fun _ => ⟨nofun, nofun⟩
      dsimp only
      split
      · exact ⟨nofun, nofun⟩
      · exact hfailed trace
    | infraError message =>
      cases message with
      | some message => exact iff_of_true ⟨nofun, nofun⟩ fun _ => ⟨nofun, nofun⟩
      | none => exact iff_of_false (fun h => h.2 rfl) fun h => (h htrue).2 rfl
    | raised trace => exact iff_of_true (hfailed trace) fun _ => ⟨nofun, nofun⟩
    | exits => exact iff_of_false (fun h => h.1 rfl) fun h => (h htrue).1 rfl

theorem onward_report (s : Service) (x : Submission) : Onward s (s.report x) :=
  ⟨fun e he => ⟨e, he, rfl, rfl, le_rfl, fun _ => rfl⟩, fun _ _ => ⟨rfl, rfl, rfl⟩⟩

theorem onward_enter (s : Service) (r : Request) : Onward s (s.enter py r) := by
  refine ⟨fun e he => ⟨e, List.mem_append_left _ he, rfl, rfl, le_rfl, fun _ => rfl⟩, ?_⟩
  intro fault hsub
  have hlength : s.submissions.length = (s.submissions ++ [Submission.raised fault false]).length :=
    congrArg List.length hsub
  simp at hlength

theorem onward_hand {t : Service} {x : Submission} (h : Onward s t) (ht : t.submissions = s.submissions)
    (hx : ∀ fault, x ≠ .raised fault false) : Onward s (t.report x) := by
  refine ⟨h.jobs, ?_⟩
  intro fault hsub
  have heq : s.submissions ++ [x] = s.submissions ++ [Submission.raised fault false] := by
    rw [← hsub, Service.report, ht]
  exact absurd (List.singleton_inj.mp (List.append_cancel_left heq)) (hx fault)

theorem Wellformed.registered_find (h : Wellformed py s) {key : PyValue} (hkey : lookup py key s.byKey = some jobId) :
    s.find jobId ≠ none := by
  obtain ⟨p, hp, heq⟩ := mem_of_lookup hkey
  obtain ⟨e, he, hid⟩ := h.registered p hp
  rw [← heq, ← hid, h.find he]
  exact Option.some_ne_none e

theorem accept_cases (h : Wellformed py s) (r : Request) :
    (∃ e ∈ s.entries, s.accept py r = s.report (.returned e.job.jobId)) ∨
      ((∀ e ∈ s.entries, e.Live → py.same e.key r.key = false) ∧ s.accept py r = s.enter py r) := by
  -- a live job of the same key is the one that the key leads to
  have hlive : ∀ e ∈ s.entries, e.Live → py.same e.key r.key = true → lookup py r.key s.byKey = some e.job.jobId := by
    intro e he hlive hsame
    rw [← lookup_congr hsame]
    exact h.keyed e he hlive (py.same_trans _ _ _ hsame (py.same_symm _ _ hsame))
  unfold Service.accept
  cases hkey : lookup py r.key s.byKey with
  | none =>
    refine .inr ⟨?_, rfl⟩
    intro e he hl
    by_contra hsame
    have hfound := hlive e he hl (eq_true_of_ne_false hsame)
    rw [hkey] at hfound
    exact nomatch hfound
  | some jobId =>
    dsimp only
    cases hfind : s.find jobId with
    | none => exact absurd hfind (h.registered_find hkey)
    | some prior =>
      obtain ⟨hmem, hid⟩ := find_some hfind
      dsimp only
      split
      · exact .inl ⟨prior, hmem, rfl⟩
      · rename_i hdead
        refine .inr ⟨?_, rfl⟩
        intro e he hl
        by_contra hsame
        have hfound := hlive e he hl (eq_true_of_ne_false hsame)
        rw [hkey, Option.some.injEq] at hfound
        rw [h.eq_of_id hmem he (hid.trans hfound)] at hdead
        exact hdead hl

theorem inPhase_some (h : Wellformed py s) {phase : Phase} (hphase : s.inPhase jobId phase = some e) :
    s.find jobId = some e ∧ e ∈ s.entries ∧ e.job.jobId = jobId ∧ phase.Status e.job.status := by
  obtain ⟨hfind, hp⟩ := Option.filter_eq_some_iff.mp hphase
  obtain ⟨hmem, hid⟩ := find_some hfind
  have hs := (h.sound e hmem).phase
  rw [of_decide_eq_true hp] at hs
  exact ⟨hfind, hmem, hid, hs⟩

structure Assigns (s : Service) (jobId : Text) (e : Entry) (f : Entry → Entry) : Prop where
  found : s.find jobId = some e
  advances : Advances e (f e)
  sound : (f e).Sound

/-- All that a step can do, and when it is safe: it records the end of a call; it enters a job; it changes one; or it does
that and ends a call. -/
theorem step_cases (h : Wellformed py s) {a : Event} {t : Service} (hstep : step py s a = some t) :
    (∃ x, t = s.report x ∧ (x.Proper s ↔ Safe py s a)) ∨
    (∃ r : Request, (∀ e ∈ s.entries, e.Live → py.same e.key r.key = false) ∧ t = s.enter py r ∧ Safe py s a) ∨
    (∃ jobId e f, Assigns s jobId e f ∧ t = s.change jobId f ∧
      (e.Settled → ((f e).Settled ↔ Safe py s a))) ∨
    ∃ jobId e f x, Assigns s jobId e f ∧ t = (s.change jobId f).report x ∧ (∀ fault, x ≠ .raised fault false) ∧
      (e.Settled → (f e).Settled) ∧ (x.Proper s ↔ Safe py s a) := by
  cases a with
  | submit payload =>
    have hreadable := admission_readable py payload
    simp only [step] at hstep
    cases hr : admission py payload with
    | error fault =>
      rw [hr] at hstep hreadable
      refine .inl ⟨_, (Option.some.inj hstep).symm, ?_⟩
      rw [Safe, ← hreadable]
      exact ⟨fun hx _ hf => Except.error.inj hf ▸ hx.1, fun hall => ⟨hall fault rfl, rfl⟩⟩
    | ok r =>
      rw [hr] at hstep hreadable
      have hsafe : Safe py s (.submit payload) := hreadable.mp fun _ hf => nomatch hf
      obtain ⟨e, he, haccept⟩ | ⟨hfree, haccept⟩ := accept_cases h r
      · exact .inl ⟨_, (Option.some.inj hstep).symm.trans haccept, iff_of_true ⟨e, he, rfl⟩ hsafe⟩
      · exact .inr (.inl ⟨r, hfree, (Option.some.inj hstep).symm.trans haccept, hsafe⟩)
  | hand jobId answer =>
    obtain ⟨e, hphase, rfl⟩ := Option.map_eq_some_iff.mp hstep
    obtain ⟨hfind, hmem, hid, hp⟩ := inPhase_some h hphase
    have hassigns : ∀ phase, phase = .waiting ∨ phase = .refused → Assigns s jobId e fun e => { e with phase } := by
      rintro phase (rfl | rfl)
      · exact ⟨hfind, advances_phase e _, (h.sound e hmem).report, (h.sound e hmem).error, hp⟩
      · exact ⟨hfind, advances_phase e _, (h.sound e hmem).report, (h.sound e hmem).error, hp⟩
    have hsettled : ∀ phase, phase ≠ .finished → e.Settled → Entry.Settled { e with phase } :=
      fun phase hphase hs => ⟨fun hf => absurd hf hphase, hs.said⟩
    refine .inr (.inr (.inr ?_))
    cases answer with
    | taken =>
      exact ⟨jobId, e, _, _, hassigns .waiting (.inl rfl), rfl, nofun, hsettled .waiting nofun, iff_of_true ⟨e, hmem, hid⟩ rfl⟩
    | refused =>
      exact ⟨jobId, e, _, _, hassigns .refused (.inr rfl), rfl, nofun, hsettled .refused nofun,
        iff_of_false (fun hx => nomatch hx.2) nofun⟩
    | takenAndRaised =>
      exact ⟨jobId, e, _, _, hassigns .waiting (.inl rfl), rfl, nofun, hsettled .waiting nofun,
        iff_of_false (fun hx => nomatch hx.2) nofun⟩
  | start jobId workdir =>
    obtain ⟨e, hphase, rfl⟩ := Option.map_eq_some_iff.mp hstep
    obtain ⟨hfind, hmem, _, hqueued⟩ := inPhase_some h hphase
    obtain ⟨hadvances, hsound⟩ := start_advances workdir (h.sound e hmem) hqueued
    refine .inr (.inr (.inl ⟨jobId, e, _, ⟨hfind, hadvances, hsound⟩, rfl, fun _ => iff_of_true ?_ trivial⟩))
    cases workdir with
    | ok path => exact ⟨nofun, nofun⟩
    | error message => exact ⟨fun _ => .inr rfl, fun _ => rfl⟩
  | grade jobId graded trace elapsed =>
    obtain ⟨e, hphase, rfl⟩ := Option.map_eq_some_iff.mp hstep
    obtain ⟨hfind, hmem, _, hrunning⟩ := inPhase_some h hphase
    obtain ⟨hadvances, hsound⟩ := grade_advances (verdictOf py e.payload graded trace) elapsed (h.sound e hmem) hrunning
    refine .inr (.inr (.inl ⟨jobId, e, _, ⟨hfind, hadvances, hsound⟩, rfl, fun _ => ?_⟩))
    have hsafe : Safe py s (.grade jobId graded trace elapsed) ↔
        verdictOf py e.payload graded trace ≠ .escapes ∧ verdictOf py e.payload graded trace ≠ .unsaid := by
      rw [verdictOf_settles, Safe]
      exact ⟨fun hs => hs e hfind, fun hs e' he' => Option.some.inj (hfind.symm.trans he') ▸ hs⟩
    rw [hsafe]
    have hundecided := (h.sound e hmem).undecided (not_terminal_running hrunning)
    cases verdictOf py e.payload graded trace with
    | report r => exact iff_of_true ⟨nofun, nofun⟩ ⟨nofun, nofun⟩
    | infra message => exact iff_of_true ⟨fun _ => .inr rfl, fun _ => rfl⟩ ⟨nofun, nofun⟩
    | unsaid =>
      refine iff_of_false (fun hs => ?_) fun hne => hne.2 rfl
      have hsome : e.job.error.isSome = true := hs.said rfl
      rw [hundecided.2] at hsome
      cases hsome
    | escapes => exact iff_of_false (fun hs => not_terminal_running hrunning (hs.finished rfl)) fun hne => hne.1 rfl
  | cleanup jobId =>
    obtain ⟨e, hphase, rfl⟩ := Option.map_eq_some_iff.mp hstep
    obtain ⟨hfind, hmem, _, hdone⟩ := inPhase_some h hphase
    have hleft : e.job.status ≠ .queued := by
      rw [show e.job.status = .done from hdone]
      exact nofun
    have hassigns : Assigns s jobId e fun e => { e with phase := .finished } :=
      ⟨hfind, advances_phase e .finished, (h.sound e hmem).report, (h.sound e hmem).error, hleft⟩
    have hsettled : e.Settled → Entry.Settled { e with phase := .finished } := fun hs => ⟨fun _ => .inl hdone, hs.said⟩
    exact .inr (.inr (.inl ⟨jobId, e, _, hassigns, rfl, fun hs => iff_of_true (hsettled hs) trivial⟩))

theorem step_keeps (h : Wellformed py s) {a : Event} {t : Service} (hstep : step py s a = some t) :
    Wellformed py t ∧ Onward s t := by
  obtain ⟨x, rfl, _⟩ | ⟨r, hfree, rfl, _⟩ | ⟨id, e, f, ha, rfl, _⟩ | ⟨id, e, f, x, ha, rfl, hx, _⟩ := step_cases h hstep
  · exact ⟨wellformed_report h x, onward_report s x⟩
  · exact ⟨wellformed_enter h hfree, onward_enter s r⟩
  · exact ⟨wellformed_change h ha.found ha.advances ha.sound, onward_change h ha.found ha.advances⟩
  · exact ⟨wellformed_report (wellformed_change h ha.found ha.advances ha.sound) x,
      onward_hand (onward_change h ha.found ha.advances) rfl hx⟩

theorem good_iff (h : Wellformed py s) : Good py s ↔
    (∀ e ∈ s.entries, e.Settled) ∧ ∀ x ∈ s.submissions, x.Proper s := by
  constructor
  · intro hg
    exact ⟨fun e he => (explained_iff (h.sound e he)).mp ⟨hg.explained e he, hg.finished e he⟩, hg.submissions⟩
  · intro ⟨hsettled, hproper⟩
    have hall := fun e he => (explained_iff (h.sound e he)).mpr (hsettled e he)
    exact ⟨h.one, fun e he => (hall e he).1, fun e he => (hall e he).2, hproper⟩

theorem Good.settled (h : Wellformed py s) (hg : Good py s) : ∀ e ∈ s.entries, e.Settled := ((good_iff h).mp hg).1

theorem proper_onward {t : Service} (h : Onward s t) {x : Submission} (hx : x.Proper s) : x.Proper t := by
  cases x with
  | returned jobId =>
    obtain ⟨e, he, hid⟩ := hx
    obtain ⟨e', he', hid', _⟩ := h.jobs e he
    exact ⟨e', he', hid'.trans hid⟩
  | raised fault entered => exact hx

theorem good_report (h : Wellformed py s) (hg : Good py s) (x : Submission) : Good py (s.report x) ↔ x.Proper s := by
  rw [good_iff (wellformed_report h x)]
  constructor
  · intro hall
    exact hall.2 x (List.mem_append_right _ (List.mem_singleton_self x))
  · intro hx
    have hsettled := hg.settled h
    refine ⟨hsettled, ?_⟩
    intro y hy
    obtain hy | rfl := List.mem_append.mp hy |>.imp_right List.mem_singleton.mp
    · exact hg.submissions y hy
    · exact hx

theorem good_enter (h : Wellformed py s) (hg : Good py s) {r : Request}
    (hfree : ∀ e ∈ s.entries, e.Live → py.same e.key r.key = false) : Good py (s.enter py r) := by
  rw [good_iff (wellformed_enter h hfree)]
  refine ⟨?_, fun x hx => proper_onward (onward_enter s r) (hg.submissions x hx)⟩
  intro e he
  obtain he | rfl := List.mem_append.mp he |>.imp_right List.mem_singleton.mp
  · exact hg.settled h e he
  · exact ⟨nofun, nofun⟩

theorem good_change (h : Wellformed py s) (hg : Good py s) {f : Entry → Entry} (ha : Assigns s jobId e f) :
    Good py (s.change jobId f) ↔ (f e).Settled := by
  rw [good_iff (wellformed_change h ha.found ha.advances ha.sound)]
  constructor
  · intro hall
    obtain ⟨hmem, hid⟩ := find_some ha.found
    refine hall.1 (f e) (List.mem_map.mpr ⟨e, hmem, ?_⟩)
    rw [if_pos hid]
  · intro he
    refine ⟨?_, fun x hx => proper_onward (onward_change h ha.found ha.advances) (hg.submissions x hx)⟩
    intro e' he'
    obtain ⟨_, _, hd⟩ := change_cases h ha.found (f := f)
      (P := fun _ e' => e'.Settled) he (hg.settled h) e' he'
    exact hd

theorem step_good (h : Wellformed py s) (hg : Good py s) {a : Event} {t : Service} (hstep : step py s a = some t) :
    Good py t ↔ Safe py s a := by
  obtain ⟨x, rfl, hx⟩ | ⟨r, hfree, rfl, hsafe⟩ | ⟨id, e, f, ha, rfl, hf⟩ | ⟨id, e, f, x, ha, rfl, _, hphase, hx⟩ :=
    step_cases h hstep
  · rw [good_report h hg, hx]
  · exact iff_of_true (good_enter h hg hfree) hsafe
  · rw [good_change h hg ha, hf (hg.settled h e (find_some ha.found).1)]
  · have hgood := (good_change h hg ha).mpr (hphase (hg.settled h e (find_some ha.found).1))
    rw [good_report (wellformed_change h ha.found ha.advances ha.sound) hgood, ← hx]
    have honward := onward_change h ha.found ha.advances
    refine ⟨fun hp => ?_, proper_onward honward⟩
    cases x with
    | returned jobId =>
      obtain ⟨e', he', hid'⟩ := hp
      obtain ⟨d, hd, hadvances⟩ := change_cases h ha.found (P := Advances) ha.advances (fun d _ => .refl d) e' he'
      exact ⟨d, hd, hadvances.jobId.symm.trans hid'⟩
    | raised fault entered => exact hp

end

/-- In every interleaving each job moves on in order, and it is good at every moment if and only if every step is safe. -/
theorem one_verdict_iff (py : Builtins) (as : List Event) :
    (Runs.Everywhere (step py) (Good py) {} as ∧
      Runs.Meets (step py) (fun s a => ∀ t, step py s a = some t → Onward s t) {} as) ↔
        Runs.Meets (step py) (Safe py) {} as := by
  have hstart : Wellformed py {} := by
    refine ⟨rfl, ?_, ?_, ?_⟩
    · exact fun _ h => nomatch h
    · exact fun _ h => nomatch h
    · exact fun _ h => nomatch h
  have hgood : Good py {} := (good_iff hstart).mpr ⟨fun _ h => (nomatch h), fun _ h => nomatch h⟩
  have hiff : Runs.Everywhere (step py) (Good py) {} as ↔ Runs.Meets (step py) (Safe py) {} as :=
    Runs.everywhere_iff_meets (fun _ _ _ h hs => (step_keeps h hs).1) (fun _ _ _ h hg hs => step_good h hg hs) hstart hgood
  rw [hiff]
  refine ⟨And.left, fun h => ⟨h, ?_⟩⟩
  exact Runs.meets_of_meets (I := Wellformed py) (fun _ _ _ h _ hs => (step_keeps h hs).1)
    (fun _ _ h _ _ hs => (step_keeps h hs).2) hstart h

def exitingRun : List Event :=
  [.submit samplePayload, .hand (jobName 1) .taken, .start (jobName 1) (.ok "/tmp/job_0001-a".toList),
    .grade (jobName 1) .exits [] .nan]

theorem not_good_of_running {py : Builtins} {s : Service}
    (h : ∃ e ∈ s.entries, e.phase = .finished ∧ e.job.status = .running) : ¬Good py s := by
  intro hg
  obtain ⟨e, he, hfinished, hstatus⟩ := h
  exact not_terminal_running hstatus (hg.finished e he hfinished)

theorem exit_leaves_running : ∃ t, Runs.run (step sampleBuiltins) {} exitingRun = some t ∧
    (∃ e ∈ t.entries, e.phase = .finished ∧ e.job.status = .running) ∧ ¬Good sampleBuiltins t := by
  have hrun : ∃ t, Runs.run (step sampleBuiltins) {} exitingRun = some t ∧
      ∃ e ∈ t.entries, e.phase = .finished ∧ e.job.status = .running := ⟨_, rfl, _, .head _, rfl, rfl⟩
  obtain ⟨t, ht, he⟩ := hrun
  exact ⟨t, ht, he, not_good_of_running he⟩

end EvoHarness.Serve
