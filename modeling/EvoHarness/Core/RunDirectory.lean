import EvoHarness.Core.Billing
import EvoHarness.Core.StopReason
import EvoHarness.Library.Runs

/-! One run directory over its whole life: the manifest and the checkpoint that starts,
kills, resumes and returns leave, and what its two readers make of them. -/
namespace EvoHarness.Core
open PyText Hoare

structure Manifest where
  status : Text
  numGenerations : Option ℕ := none
  resumes : ℕ := 0
  report : Option RunReport := none

/-- `start_manifest`: on an existing file a resume is noted, and the frozen sections stand. -/
def startManifest (numGenerations : Option ℕ) : Option Manifest → Manifest
  | some m => { m with resumes := m.resumes + 1, status := "running".toList }
  | none => { status := "running".toList, numGenerations }

def finalizeManifest (report : RunReport) : Option Manifest → Manifest
  | some m => { m with report := some report, status := "completed".toList }
  | none => { status := "completed".toList, report := some report }

/-- `checkpoint.json` holds a report and the generation it was written after. -/
structure RunDir where
  name : Text
  manifest : Option Manifest := none
  checkpoint : Option (RunReport × ℕ) := none

structure RunStatus where
  name : Text
  state : Text
  generation : ℕ
  targetGenerations : Option ℕ
  bestFitness : Option ℚ
  evaluations : ℕ
  stoppedReason : Option Text

def RunStatus.finished (r : RunStatus) : Bool := r.stoppedReason.isSome

def stallAfterS : ℚ := 20 * 60

def RunDir.report (d : RunDir) : Option RunReport :=
  (d.manifest.bind Manifest.report).or (d.checkpoint.map Prod.fst)

def RunDir.stopped (d : RunDir) : Option Text :=
  (d.report.map RunReport.stoppedReason).filter (· ≠ "running".toList)

/-- `age` is the time since the checkpoint moved, `best` the best fitness in the store. -/
def runStatus (d : RunDir) (age best : Option ℚ) : RunStatus where
  name := d.name
  state :=
    match d.stopped with
    | some (c :: reason) => c :: reason
    | _ => if age.any (stallAfterS < ·) then "stalled".toList else "running".toList
  generation := (d.checkpoint.map Prod.snd).getD 0
  targetGenerations := d.manifest.bind Manifest.numGenerations
  bestFitness := (d.report.bind RunReport.bestFitness).or best
  evaluations := (d.report.map RunReport.evaluations).getD 0
  stoppedReason := d.stopped

structure CoreScorecard where
  runId : Text
  stoppedReason : Text
  generationsCompleted : ℕ
  evaluations : ℕ
  infraDrops : ℕ
  preflightFailures : ℕ
  bestFitness : Option ℚ
  totalEvalCostUsd : ℚ≥0
  evidenceCount : ℕ

def CoreScorecard.infraRate (c : CoreScorecard) : ℚ :=
  if c.evaluations + c.infraDrops = 0 then 0 else c.infraDrops / (c.evaluations + c.infraDrops : ℕ)

def HistoryRow.isInfraError : HistoryRow → Bool
  | .infraError .. => true
  | _ => false

def HistoryRow.isPreflightFailed : HistoryRow → Bool
  | .preflightFailed .. => true
  | _ => false

def RunDir.finalReport (d : RunDir) : Option RunReport :=
  match d.manifest with
  | some m =>
    match m.report with
    | some report => if m.status = "completed".toList then some report else d.checkpoint.map Prod.fst
    | none => d.checkpoint.map Prod.fst
  | none => d.checkpoint.map Prod.fst

def coreScorecard (d : RunDir) (evidenceCount : ℕ) : Option CoreScorecard :=
  d.finalReport.map fun report =>
    { runId := d.name, stoppedReason := report.stoppedReason, generationsCompleted := report.generationsCompleted
      evaluations := report.evaluations, infraDrops := report.history.countP (·.isInfraError)
      preflightFailures := report.history.countP (·.isPreflightFailed), bestFitness := report.bestFitness
      totalEvalCostUsd := report.totalEvalCost, evidenceCount }

inductive Latest where
  | never
  | begun (s : SearchLoop) (env : ℕ → LoopReply) (done : ℕ)
  | returned (report : RunReport)
  | finalized (report : RunReport)

def Latest.isFinalized : Latest → Bool
  | .finalized _ => true
  | _ => false

structure Life where
  dir : RunDir
  latest : Latest := .never

/-- A move starts a process, lets the run do the next thing, lets it return, or closes the manifest. -/
inductive Move where
  | start (s : SearchLoop) (env : ℕ → LoopReply) (numGenerations : Option ℕ)
  | next
  | ret
  | finalize

def RunDir.found (d : RunDir) (env : ℕ → LoopReply) (n : ℕ) : LoopReply :=
  if n = 0 then { env 0 with checkpoint := d.checkpoint } else env n

def RunDir.after (d : RunDir) : Event → RunDir
  | .saved report generation => { d with checkpoint := some (report, generation) }
  | _ => d

def runEvents (s : SearchLoop) (env : ℕ → LoopReply) : List Event := (s.run env {}).2.log.reverse

def Life.step : Life → Move → Option Life
  | l, .start s env numGenerations =>
    some { dir := { l.dir with manifest := some (startManifest numGenerations l.dir.manifest) }
           latest := .begun s (l.dir.found env) 0 }
  | ⟨d, .begun s env done⟩, .next => (runEvents s env)[done]?.map fun e => ⟨d.after e, .begun s env (done + 1)⟩
  | ⟨d, .begun s env done⟩, .ret =>
    if done = (runEvents s env).length then (s.run env {}).1.toOption.map fun report => ⟨d, .returned report⟩
    else none
  | ⟨d, .returned report⟩, .finalize =>
    some ⟨{ d with manifest := some (finalizeManifest report d.manifest) }, .finalized report⟩
  | _, _ => none

/-- Finished is what the latest run is when it has returned and the manifest is closed, and both readers
then name the reason it returned. -/
structure Life.Told (l : Life) : Prop where
  finished : ∀ age best, (runStatus l.dir age best).finished = true ↔ ∃ report, l.latest = .finalized report
  status : ∀ report, l.latest = .finalized report → ∀ age best,
    (runStatus l.dir age best).stoppedReason = some report.stoppedReason
  scorecard : ∀ report, l.latest = .finalized report → ∀ evidenceCount,
    (coreScorecard l.dir evidenceCount).map CoreScorecard.stoppedReason = some report.stoppedReason

def KeepsPopulation (env : ℕ → LoopReply) : Prop := (env 0).checkpoint = none ∧ (env 0).population ≠ 0

/-- No process starts on a directory that was finalized, and no run that keeps a population without a
checkpoint writes one. -/
def Life.Clean : Life → Move → Prop
  | l, .start _ _ _ => l.dir.manifest.bind Manifest.report = none
  | ⟨_, .begun s env done⟩, .next =>
    KeepsPopulation env → ∀ report generation, (runEvents s env)[done]? ≠ some (.saved report generation)
  | _, _ => True

variable {d : RunDir} {l t : Life} {m : Move} {s : SearchLoop} {env : ℕ → LoopReply} {report : RunReport}

/-- What every step keeps: a finalized report has a reason of its own, and the checkpoint of a run that has
begun is the one it found or one it wrote. -/
structure Life.Kept (l : Life) : Prop where
  reported : ∀ report, l.dir.manifest.bind Manifest.report = some report → report.stoppedReason ≠ "running".toList
  begun : ∀ s env done, l.latest = .begun s env done → l.dir.checkpoint = (env 0).checkpoint ∨
    ∃ saved, l.dir.checkpoint = some saved ∧ saved.1.stoppedReason = SearchLoop.startReason s (env 0)
  returned : ∀ report, l.latest = .returned report → report.stoppedReason ≠ "running".toList
  finalized : ∀ report, l.latest = .finalized report →
    ∃ m, l.dir.manifest = some m ∧ m.status = "completed".toList ∧ m.report = some report

structure RunDir.Open (d : RunDir) : Prop where
  manifest : d.manifest.bind Manifest.report = none
  checkpoint : ∀ saved, d.checkpoint = some saved → saved.1.stoppedReason = "running".toList

theorem RunDir.stopped_none : d.stopped = none ↔ ∀ report, d.report = some report → report.stoppedReason = "running".toList := by
  unfold RunDir.stopped
  generalize "running".toList = sentinel
  cases d.report with
  | none => simp
  | some report => simp [Option.filter]

theorem RunDir.open_iff (hreported : ∀ report, d.manifest.bind Manifest.report = some report →
    report.stoppedReason ≠ "running".toList) : d.stopped = none ↔ d.Open := by
  rw [RunDir.stopped_none, RunDir.report]
  constructor
  · intro h
    cases hm : d.manifest.bind Manifest.report with
    | some report => exact absurd (h report (by rw [hm]; rfl)) (hreported report hm)
    | none =>
      refine ⟨hm, fun saved hsaved => h saved.1 ?_⟩
      rw [hm, hsaved]
      rfl
  · intro h report hreport
    rw [h.manifest, Option.none_or] at hreport
    obtain ⟨saved, hsaved, heq⟩ := Option.map_eq_some_iff.mp hreport
    rw [← heq]
    exact h.checkpoint saved hsaved

theorem RunDir.stopped_finalized {m : Manifest} (hm : d.manifest = some m) (hreport : m.report = some report)
    (hreason : report.stoppedReason ≠ "running".toList) : d.stopped = some report.stoppedReason := by
  unfold RunDir.stopped
  revert hreason
  generalize "running".toList = sentinel
  intro hreason
  simp [RunDir.report, hm, hreport, Option.filter, hreason]

theorem Life.told_iff (hk : l.Kept) : l.Told ↔ (∃ report, l.latest = .finalized report) ∨ l.dir.Open := by
  have hopen := RunDir.open_iff hk.reported
  have hfinished : ∀ age best, (runStatus l.dir age best).finished = false ↔ l.dir.Open := by
    intro age best
    rw [← hopen]
    show l.dir.stopped.isSome = false ↔ _
    rw [Option.isSome_eq_false_iff, Option.isNone_iff_eq_none]
  constructor
  · intro h
    by_cases hfinal : ∃ report, l.latest = .finalized report
    · exact Or.inl hfinal
    · right
      apply (hfinished none none).mp
      have hnot := mt (h.finished none none).mp hfinal
      simpa using hnot
  · intro h
    by_cases hfinal : ∃ report, l.latest = .finalized report
    · obtain ⟨report, hlatest⟩ := hfinal
      obtain ⟨m, hm, hstatus, hreport⟩ := hk.finalized report hlatest
      have hreason := hk.reported report (by rw [hm]; exact hreport)
      have hstopped := RunDir.stopped_finalized hm hreport hreason
      have hsame : ∀ r, l.latest = .finalized r → r = report := by
        intro r hr
        rw [hlatest] at hr
        exact (Latest.finalized.inj hr).symm
      constructor
      · intro age best
        have hsome : (runStatus l.dir age best).finished = true := by
          show l.dir.stopped.isSome = true
          rw [hstopped]
          rfl
        exact iff_of_true hsome ⟨report, hlatest⟩
      · intro r hr age best
        rw [hsame r hr]
        exact hstopped
      · intro r hr evidenceCount
        rw [hsame r hr]
        simp [coreScorecard, RunDir.finalReport, hm, hreport, hstatus]
    · have hdir : l.dir.Open := h.resolve_left hfinal
      constructor
      · intro age best
        refine iff_of_false ?_ hfinal
        rw [(hfinished age best).mpr hdir]
        exact Bool.false_ne_true
      · intro r hr
        exact absurd ⟨r, hr⟩ hfinal
      · intro r hr
        exact absurd ⟨r, hr⟩ hfinal

theorem RunDir.after_manifest (e : Event) : (d.after e).manifest = d.manifest := by
  cases e with
  | saved report generation => rfl
  | began | called | charged | graded => rfl

theorem RunDir.after_checkpoint {e : Event} (h : ∀ report generation, e ≠ .saved report generation) :
    d.after e = d := by
  cases e with
  | saved report generation => exact absurd rfl (h report generation)
  | began | called | charged | graded => rfl

theorem runEvents_saved {done generation : ℕ} (h : (runEvents s env)[done]? = some (.saved report generation)) :
    report.stoppedReason = SearchLoop.startReason s (env 0) := by
  have hmem := List.mem_of_getElem? h
  exact SearchLoop.run_saves s env report generation (List.mem_reverse.mp hmem)

theorem startReason_kept (h : KeepsPopulation env) : SearchLoop.startReason s (env 0) ≠ "running".toList := by
  unfold SearchLoop.startReason
  rw [h.1]
  dsimp only
  rw [if_neg h.2]
  show "completed".toList ≠ "running".toList
  decide

theorem startReason_running (hfound : ∀ saved, (env 0).checkpoint = some saved → saved.1.stoppedReason = "running".toList)
    (h : ¬ KeepsPopulation env) : SearchLoop.startReason s (env 0) = "running".toList := by
  unfold SearchLoop.startReason
  cases hcheckpoint : (env 0).checkpoint with
  | some saved =>
    have hreason := hfound saved hcheckpoint
    have hne : ¬ (saved.1.stoppedReason = "completed".toList ∧ saved.2 + 1 ≤ s.cfg.numGenerations) := by
      rw [hreason]
      intro hboth
      exact absurd hboth.1 (by decide)
    dsimp only
    rw [SearchLoop.resumed, if_neg hne, hreason]
  | none =>
    have hempty : (env 0).population = 0 := by
      by_contra hne
      exact h ⟨hcheckpoint, hne⟩
    dsimp only
    rw [if_pos hempty]

inductive Life.Takes : Life → Move → Life → Prop
  | start (l : Life) (s : SearchLoop) (env : ℕ → LoopReply) (numGenerations : Option ℕ) :
    Takes l (.start s env numGenerations)
      ⟨{ l.dir with manifest := some (startManifest numGenerations l.dir.manifest) }, .begun s (l.dir.found env) 0⟩
  | next (d : RunDir) (s : SearchLoop) (env : ℕ → LoopReply) (done : ℕ) (e : Event)
    (he : (runEvents s env)[done]? = some e) : Takes ⟨d, .begun s env done⟩ .next ⟨d.after e, .begun s env (done + 1)⟩
  | ret (d : RunDir) (s : SearchLoop) (env : ℕ → LoopReply) (done : ℕ) (report : RunReport)
    (hrun : (s.run env {}).1 = .ok report) : Takes ⟨d, .begun s env done⟩ .ret ⟨d, .returned report⟩
  | finalize (d : RunDir) (report : RunReport) : Takes ⟨d, .returned report⟩ .finalize
      ⟨{ d with manifest := some (finalizeManifest report d.manifest) }, .finalized report⟩

theorem Life.step_takes (h : l.step m = some t) : l.Takes m t := by
  cases m with
  | start s env numGenerations =>
    cases h
    exact .start l s env numGenerations
  | next =>
    cases l with
    | mk d latest =>
      cases latest with
      | begun s env done =>
        obtain ⟨e, he, ht⟩ := Option.map_eq_some_iff.mp h
        rw [← ht]
        exact .next d s env done e he
      | never => cases h
      | returned report => cases h
      | finalized report => cases h
  | ret =>
    cases l with
    | mk d latest =>
      cases latest with
      | begun s env done =>
        simp only [Life.step] at h
        split at h
        · obtain ⟨report, hreport, ht⟩ := Option.map_eq_some_iff.mp h
          rw [← ht]
          refine .ret d s env done report ?_
          cases hrun : (s.run env {}).1 with
          | error e =>
            rw [hrun] at hreport
            cases hreport
          | ok r =>
            rw [hrun] at hreport
            rw [Option.some.inj hreport]
        · cases h
      | never => cases h
      | returned report => cases h
      | finalized report => cases h
  | finalize =>
    cases l with
    | mk d latest =>
      cases latest with
      | returned report =>
        cases h
        exact .finalize d report
      | never => cases h
      | begun s env done => cases h
      | finalized report => cases h

theorem startManifest_report (numGenerations : Option ℕ) (old : Option Manifest) :
    (startManifest numGenerations old).report = old.bind Manifest.report := by
  cases old with
  | none => rfl
  | some m => rfl

theorem finalizeManifest_report (report : RunReport) (old : Option Manifest) :
    (finalizeManifest report old).report = some report ∧ (finalizeManifest report old).status = "completed".toList := by
  cases old with
  | none => exact ⟨rfl, rfl⟩
  | some m => exact ⟨rfl, rfl⟩

theorem Life.kept_step (hk : l.Kept) (h : l.step m = some t) : t.Kept := by
  cases Life.step_takes h with
  | start _ s env numGenerations =>
    constructor
    · intro report hreport
      apply hk.reported report
      rw [← startManifest_report numGenerations]
      exact hreport
    · intro s' env' done hlatest
      cases hlatest
      exact Or.inl rfl
    · exact fun _ hlatest => nomatch hlatest
    · exact fun _ hlatest => nomatch hlatest
  | next d s env done e he =>
    constructor
    · intro report hreport
      apply hk.reported report
      rw [← RunDir.after_manifest e]
      exact hreport
    · intro s' env' done' hlatest
      cases hlatest
      cases e with
      | saved report generation =>
        exact Or.inr ⟨(report, generation), rfl, runEvents_saved he⟩
      | began | called | charged | graded => exact hk.begun s env done rfl
    · exact fun _ hlatest => nomatch hlatest
    · exact fun _ hlatest => nomatch hlatest
  | ret d s env done report hrun =>
    constructor
    · exact hk.reported
    · exact fun _ _ _ hlatest => nomatch hlatest
    · intro r hlatest
      cases hlatest
      exact SearchLoop.run_returns (Prod.ext hrun rfl)
    · exact fun _ hlatest => nomatch hlatest
  | finalize d report =>
    have hfinal := finalizeManifest_report report d.manifest
    constructor
    · intro r hr
      have hsame : some report = some r := hfinal.1.symm.trans hr
      rw [← Option.some.inj hsame]
      exact hk.returned report rfl
    · exact fun _ _ _ hlatest => nomatch hlatest
    · exact fun _ hlatest => nomatch hlatest
    · intro r hlatest
      cases hlatest
      exact ⟨_, rfl, hfinal.2, hfinal.1⟩

theorem Life.told_of_open (hk : l.Kept) (hl : l.Told) (h : ∀ report, l.latest ≠ .finalized report) : l.dir.Open := by
  cases (Life.told_iff hk).mp hl with
  | inl hfinal =>
    obtain ⟨report, hreport⟩ := hfinal
    exact absurd hreport (h report)
  | inr hdir => exact hdir

theorem Life.told_iff_open (hk : l.Kept) (h : ∀ report, l.latest ≠ .finalized report) : l.Told ↔ l.dir.Open := by
  rw [Life.told_iff hk]
  constructor
  · intro htold
    cases htold with
    | inl hfinal =>
      obtain ⟨report, hreport⟩ := hfinal
      exact absurd hreport (h report)
    | inr hdir => exact hdir
  · exact Or.inr

theorem Life.told_step (hk : l.Kept) (hl : l.Told) (h : l.step m = some t) : t.Told ↔ l.Clean m := by
  have hkt := Life.kept_step hk h
  cases Life.step_takes h with
  | start _ s env numGenerations =>
    rw [Life.told_iff_open hkt fun _ hlatest => nomatch hlatest]
    constructor
    · intro hopen
      show l.dir.manifest.bind Manifest.report = none
      rw [← startManifest_report numGenerations]
      exact hopen.manifest
    · intro hclean
      have hnone : l.dir.manifest.bind Manifest.report = none := hclean
      have hdir : l.dir.Open := by
        apply Life.told_of_open hk hl
        intro report hlatest
        obtain ⟨m, hm, -, hreport⟩ := hk.finalized report hlatest
        rw [hm] at hnone
        exact absurd (hreport.symm.trans hnone) (by simp)
      refine ⟨?_, hdir.checkpoint⟩
      rw [← startManifest_report numGenerations] at hnone
      exact hnone
  | next d s env done e he =>
    have hdir : d.Open := Life.told_of_open hk hl fun _ hlatest => nomatch hlatest
    rw [Life.told_iff_open hkt fun _ hlatest => nomatch hlatest]
    by_cases hsaves : ∃ report generation, e = .saved report generation
    · obtain ⟨report, generation, hsaved⟩ := hsaves
      rw [hsaved] at he ⊢
      have hreason := runEvents_saved he
      constructor
      · intro hopen hkeeps
        have hrunning := hopen.checkpoint _ rfl
        rw [hreason] at hrunning
        exact absurd hrunning (startReason_kept hkeeps)
      · intro hclean
        have hnot : ¬ KeepsPopulation env := fun hkeeps => hclean hkeeps report generation he
        refine ⟨hdir.manifest, fun saved hcheckpoint => ?_⟩
        cases hcheckpoint
        rw [hreason]
        by_contra hrunning
        cases hk.begun s env done rfl with
        | inl hfound =>
          have hcheckpoints : ∀ saved, (env 0).checkpoint = some saved → saved.1.stoppedReason = "running".toList := by
            rw [← hfound]
            exact hdir.checkpoint
          exact hrunning (startReason_running hcheckpoints hnot)
        | inr hwritten =>
          obtain ⟨saved, hcheckpoint, hsame⟩ := hwritten
          exact hrunning (hsame.symm.trans (hdir.checkpoint saved hcheckpoint))
    · have hother : ∀ report generation, e ≠ .saved report generation :=
        fun report generation he => hsaves ⟨report, generation, he⟩
      rw [RunDir.after_checkpoint hother]
      refine iff_of_true hdir fun _ report generation hsaved => ?_
      exact hother report generation (Option.some.inj (he.symm.trans hsaved))
  | ret d s env done report hrun =>
    have hdir : d.Open := Life.told_of_open hk hl fun _ hlatest => nomatch hlatest
    rw [Life.told_iff_open hkt fun _ hlatest => nomatch hlatest]
    exact iff_of_true hdir trivial
  | finalize d report =>
    rw [Life.told_iff hkt]
    exact iff_of_true (Or.inl ⟨report, rfl⟩) trivial

def fresh (name : Text) : Life := ⟨⟨name, none, none⟩, .never⟩

theorem kept_fresh (name : Text) : (fresh name).Kept := by
  constructor
  · intro report h
    cases h
  · intro s env done h
    cases h
  · intro report h
    cases h
  · intro report h
    cases h

theorem told_fresh (name : Text) : (fresh name).Told := by
  rw [Life.told_iff (kept_fresh name)]
  exact Or.inr ⟨rfl, fun _ h => nomatch h⟩

/-- Over every life of a directory, both readers tell how the latest run ended exactly when every step of it is
clean. -/
theorem finished_means_finished (name : Text) (moves : List Move) :
    Runs.Everywhere Life.step Life.Told (fresh name) moves ↔ Runs.Meets Life.step Life.Clean (fresh name) moves :=
  Runs.everywhere_iff_meets (fun _ _ _ hk => Life.kept_step hk) (fun _ _ _ hk hl => Life.told_step hk hl)
    (kept_fresh name) (told_fresh name)

def spent (_ : ℕ) : LoopReply := { SearchLoop.always SearchLoop.sessions 0 with overBudget := true }

def restarted : List Move :=
  [.start SearchLoop.oneByOne spent (some 3), .next, .next, .next, .ret, .finalize,
    .start SearchLoop.oneByOne (SearchLoop.always SearchLoop.sessions) (some 3)]

theorem restarted_reads_finished :
    ¬ ∀ (name : Text) (moves : List Move), Runs.Everywhere Life.step Life.Told (fresh name) moves := by
  intro hclaim
  have hends : (Runs.run Life.step (fresh []) restarted).map (fun l => (runStatus l.dir none none).stoppedReason) =
      some (some "budget".toList) := by decide
  have hbegun : (Runs.run Life.step (fresh []) restarted).all
      (!·.latest.isFinalized) = true := by decide
  cases hrun : Runs.run Life.step (fresh []) restarted with
  | none =>
    rw [hrun] at hends
    cases hends
  | some l =>
    rw [hrun] at hends hbegun
    have htold := Runs.everywhere_last (hclaim [] restarted) hrun
    have hreason : (runStatus l.dir none none).stoppedReason = some "budget".toList := Option.some.inj hends
    have hfinished : (runStatus l.dir none none).finished = true := by
      rw [RunStatus.finished, hreason]
      rfl
    obtain ⟨report, hlatest⟩ := (htold.finished none none).mp hfinished
    simp [hlatest, Latest.isFinalized] at hbegun

end EvoHarness.Core
