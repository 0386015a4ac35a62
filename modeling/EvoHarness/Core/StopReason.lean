import EvoHarness.Core.LoopFrame

/-! Why a run stopped: the reason a report carries while the run goes on, what its
checkpoints hold of it, and what is returned. -/
namespace EvoHarness.Core.SearchLoop
open PyText Hoare

def SavedAs (reason : Text) (log : List Event) : Prop :=
  ∀ report generation, Event.saved report generation ∈ log → report.stoppedReason = reason

def Stays (w w' : LoopWorld) : Prop :=
  w'.report.stoppedReason = w.report.stoppedReason ∧
    ∃ new, w'.log = new ++ w.log ∧ SavedAs w.report.stoppedReason new

def Saves {α : Type} (m : Prog LoopWorld RunFault α) : Prop :=
  Prog.Moves (fun w w' => ∃ new, w'.log = new ++ w.log ∧ SavedAs w.report.stoppedReason new) m

def Ends {α : Type} (m : Prog LoopWorld RunFault (Option α)) : Prop :=
  Saves m ∧ ∀ w a w', m w = (.ok (some a), w') → w'.report.stoppedReason = w.report.stoppedReason

variable {α β : Type} {s : SearchLoop} {env : ℕ → LoopReply} {reason : Text} {log more : List Event}

theorem savedAs_nil : SavedAs reason [] := fun _ _ h => nomatch h

theorem SavedAs.append (h : SavedAs reason log) (h' : SavedAs reason more) : SavedAs reason (log ++ more) := by
  intro report generation hmem
  cases List.mem_append.mp hmem with
  | inl hmem => exact h report generation hmem
  | inr hmem => exact h' report generation hmem

theorem savedAs_single (e : Event) (h : ∀ report generation, e = .saved report generation → report.stoppedReason = reason) :
    SavedAs reason [e] := by
  intro report generation hmem
  exact h report generation (List.mem_singleton.mp hmem).symm

theorem stays_event (w : LoopWorld) (e : Event)
    (h : ∀ report generation, e = .saved report generation → report = w.report) :
    Stays w { w with log := e :: w.log } := by
  refine ⟨rfl, [e], rfl, savedAs_single e fun report generation he => ?_⟩
  rw [h report generation he]

theorem stays_frame : FullFrame Stays where
  refl _ := ⟨rfl, [], rfl, savedAs_nil⟩
  trans u v w huv hvw := by
    obtain ⟨hreason, first, hfirst, hsaved⟩ := huv
    obtain ⟨hreason', second, hsecond, hsaved'⟩ := hvw
    rw [hreason] at hsaved'
    exact ⟨hreason'.trans hreason, second ++ first, by rw [hsecond, hfirst, List.append_assoc], hsaved'.append hsaved⟩
  asked _ := ⟨rfl, [], rfl, savedAs_nil⟩
  report _ hf w := ⟨hf w.report, [], rfl, savedAs_nil⟩
  began generation w := stays_event w _ fun _ _ h => nomatch h
  charged usd w := stays_event w _ fun _ _ h => nomatch h
  graded usd w := stays_event w _ fun _ _ h => nomatch h
  saved generation w := stays_event w _ fun _ _ h => (Event.saved.inj h).1.symm
  called calls w := stays_event w _ fun _ _ h => nomatch h

theorem stays_saves {m : Prog LoopWorld RunFault α} (h : Prog.Moves Stays m) : Saves m := fun w => (h w).2

theorem stays_ends {m : Prog LoopWorld RunFault (Option α)} (h : Prog.Moves Stays m) : Ends m := by
  refine ⟨stays_saves h, fun w a w' hw => ?_⟩
  have hstays := (h w).1
  rwa [hw] at hstays

theorem Saves.after {m : Prog LoopWorld RunFault α} {f : α → Prog LoopWorld RunFault β} (hm : Prog.Moves Stays m)
    (hf : ∀ a, Saves (f a)) : Saves (m >>= f) := by
  intro w
  obtain ⟨hreason, first, hfirst, hsaved⟩ := hm w
  cases hw : m w with
  | mk r w' =>
    rw [hw] at hreason hfirst
    cases r with
    | error e =>
      rw [Prog.bind_error hw]
      exact ⟨first, hfirst, hsaved⟩
    | ok a =>
      rw [Prog.bind_ok hw]
      obtain ⟨second, hsecond, hsaved'⟩ := hf a w'
      rw [hreason] at hsaved'
      exact ⟨second ++ first, by rw [hsecond, hfirst, List.append_assoc], hsaved'.append hsaved⟩

theorem Ends.after {m : Prog LoopWorld RunFault α} {f : α → Prog LoopWorld RunFault (Option β)}
    (hm : Prog.Moves Stays m) (hf : ∀ a, Ends (f a)) : Ends (m >>= f) := by
  refine ⟨.after hm fun a => (hf a).1, fun w b w'' h => ?_⟩
  obtain ⟨a, w', hw, hb⟩ := Prog.bind_returns h
  have hreason := (hm w).1
  rw [hw] at hreason
  exact ((hf a).2 w' b w'' hb).trans hreason

theorem stop_ends (why : String) : Ends (stop why) := by
  refine ⟨fun w => ⟨[], rfl, savedAs_nil⟩, fun w a w' h => ?_⟩
  cases h

theorem unlessTarget_ends (streaks : ℕ × ℕ) : Ends (unlessTarget env streaks) := by
  refine .after stays_frame.component fun r => ?_
  split
  · exact stop_ends _
  · exact stays_ends (stays_frame.pure _)

theorem endBatch_ends (generation infraStreak proposeStreak : ℕ) :
    Ends (s.endBatch env generation infraStreak proposeStreak) := by
  refine .after (stays_frame.complete generation) fun _ => ?_
  split
  · exact stop_ends _
  · split
    · exact stop_ends _
    · exact unlessTarget_ends _

theorem stopOnBilling_ends {m : Prog LoopWorld RunFault α} {next : α → Prog LoopWorld RunFault (Option (ℕ × ℕ))}
    (hm : Prog.Moves Stays m) (hnext : ∀ a, Ends (next a)) : Ends (stopOnBilling m next) := by
  refine .after (stays_frame.unlessBilling hm) fun r => ?_
  cases r with
  | none => exact stop_ends _
  | some a => exact hnext a

theorem afterPropose_ends (generation infraStreak proposeStreak : ℕ) (cand : Option Candidate) :
    Ends (s.afterPropose env generation infraStreak proposeStreak cand) := by
  cases cand with
  | none =>
    refine .after (stays_frame.record _) fun _ => .after (stays_frame.complete generation) fun _ => ?_
    split
    · exact stop_ends _
    · exact stays_ends (stays_frame.pure _)
  | some cand =>
    refine .after stays_frame.tryGrade fun graded => ?_
    cases graded with
    | error error =>
      refine .after (stays_frame.record _) fun _ => .after (stays_frame.complete generation) fun _ => ?_
      split
      · exact stop_ends _
      · exact stays_ends (stays_frame.pure _)
    | ok r =>
      refine .after stays_frame.housekeeping fun _ => .after stays_frame.noteBest fun _ => ?_
      refine .after (stays_frame.record _) fun _ => .after (stays_frame.complete generation) fun _ => ?_
      exact unlessTarget_ends _

theorem runGeneration_ends (s : SearchLoop) (env : ℕ → LoopReply) (generation infraStreak proposeStreak : ℕ) :
    Ends (s.runGeneration env generation infraStreak proposeStreak) := by
  refine .after (stays_frame.began generation) fun _ => ?_
  split
  · exact stopOnBilling_ends (stays_frame.runBatchGeneration generation infraStreak) fun _ => endBatch_ends generation _ _
  · exact stopOnBilling_ends (stays_frame.propose generation _) (afterPropose_ends generation _ _)

theorem generations_saves (s : SearchLoop) (env : ℕ → LoopReply) (left generation infraStreak proposeStreak : ℕ) :
    Saves (s.generations env left generation infraStreak proposeStreak) := by
  induction left generalizing generation infraStreak proposeStreak with
  | zero => exact stays_saves (stays_frame.pure ())
  | succ left ih =>
    refine .after stays_frame.component fun r => ?_
    split
    · exact fun w => ⟨[], rfl, savedAs_nil⟩
    · intro w
      obtain ⟨hsaves, hgoes⟩ := runGeneration_ends s env generation infraStreak proposeStreak
      obtain ⟨first, hfirst, hsaved⟩ := hsaves w
      cases hw : s.runGeneration env generation infraStreak proposeStreak w with
      | mk r w' =>
        rw [hw] at hfirst
        cases r with
        | error e =>
          rw [Prog.bind_error hw]
          exact ⟨first, hfirst, hsaved⟩
        | ok streaks =>
          rw [Prog.bind_ok hw]
          cases streaks with
          | none => exact ⟨first, hfirst, hsaved⟩
          | some streaks =>
            obtain ⟨second, hsecond, hsaved'⟩ := ih (generation + 1) streaks.1 streaks.2 w'
            rw [hgoes w streaks w' hw] at hsaved'
            exact ⟨second ++ first, by rw [hsecond, hfirst, List.append_assoc], hsaved'.append hsaved⟩

/-- The reason a run starts with. One that keeps a population without a checkpoint starts with the
default of a fresh report. -/
def startReason (s : SearchLoop) (r : LoopReply) : Text :=
  match r.checkpoint with
  | some saved => (s.resumed saved).stoppedReason
  | none => if r.population = 0 then "running".toList else ({} : RunReport).stoppedReason

theorem component_run (env : ℕ → LoopReply) (w : LoopWorld) : component env w = match (env w.asked).raised with
    | some e => (.error e, { w with asked := w.asked + 1 })
    | none => (.ok (env w.asked), { w with asked := w.asked + 1 }) := by
  show (raiseIf (env w.asked).raised >>= fun _ => pure (env w.asked)) _ = _
  cases (env w.asked).raised with
  | none => rfl
  | some e => rfl

theorem seed_saves (s : SearchLoop) (env : ℕ → LoopReply) (w : LoopWorld) :
    (∃ new, (s.seed env w).2.log = new ++ w.log ∧ SavedAs "running".toList new) ∧
      (s.seed env w).2.report.stoppedReason = "running".toList := by
  have hrest : Prog.Moves Stays (do
      s.seedAll env s.seeds
      let _ ← component env
      saveCheckpoint env 0) :=
    stays_frame.bind (stays_frame.seedAll _) fun _ => stays_frame.bind stays_frame.component fun _ =>
      stays_frame.saveCheckpoint 0
  obtain ⟨hreason, hlog⟩ := hrest { w with report := { w.report with stoppedReason := "running".toList } }
  exact ⟨hlog, hreason⟩

theorem start_saves (s : SearchLoop) (env : ℕ → LoopReply) : SavedAs (startReason s (env 0)) (s.start env {}).2.log ∧
    ∀ first w, s.start env {} = (.ok first, w) → w.report.stoppedReason = startReason s (env 0) := by
  have hcomponent := component_run env ({} : LoopWorld)
  cases hraised : (env 0).raised with
  | some e =>
    simp only [hraised] at hcomponent
    have hstart : s.start env {} = _ := Prog.bind_error hcomponent
    rw [hstart]
    exact ⟨savedAs_nil, fun _ _ h => nomatch h⟩
  | none =>
    simp only [hraised] at hcomponent
    have hstart : s.start env {} = _ := Prog.bind_ok hcomponent
    rw [hstart, startReason]
    cases (env 0).checkpoint with
    | some saved =>
      dsimp only
      split
      · exact ⟨savedAs_nil, fun _ _ h => nomatch h⟩
      · refine ⟨savedAs_nil, fun first w h => ?_⟩
        cases h
        rfl
    | none =>
      dsimp only
      split
      · obtain ⟨⟨new, hlog, hsaved⟩, hreason⟩ := seed_saves s env { asked := 1 }
        cases hseed : s.seed env { asked := 1 } with
        | mk r w =>
          rw [hseed] at hlog hreason
          cases r with
          | error e =>
            rw [Prog.bind_error hseed]
            refine ⟨?_, fun _ _ h => nomatch h⟩
            rw [hlog, List.append_nil]
            exact hsaved
          | ok u =>
            rw [Prog.bind_ok hseed]
            refine ⟨?_, fun first w' h => ?_⟩
            · rw [Prog.pure_run, hlog, List.append_nil]
              exact hsaved
            · cases h
              exact hreason
      · split
        · refine ⟨savedAs_nil, fun first w h => ?_⟩
          cases h
          rfl
        · exact ⟨savedAs_nil, fun _ _ h => nomatch h⟩

/-- Whatever happens in a run and wherever it ends, its checkpoints carry the reason it started with. -/
theorem run_saves (s : SearchLoop) (env : ℕ → LoopReply) :
    SavedAs (startReason s (env 0)) (s.run env {}).2.log := by
  obtain ⟨hstart, hreason⟩ := start_saves s env
  cases hw : s.start env {} with
  | mk r w =>
    rw [hw] at hstart
    have hrun : s.run env {} = (s.start env >>= fun first =>
        s.generations env (s.cfg.numGenerations + 1 - first) first 0 0 >>= fun _ => finish env) {} := rfl
    rw [hrun]
    cases r with
    | error e =>
      rw [Prog.bind_error hw]
      exact hstart
    | ok first =>
      rw [Prog.bind_ok hw]
      obtain ⟨new, hlog, hsaved⟩ := generations_saves s env (s.cfg.numGenerations + 1 - first) first 0 0 w
      rw [hreason first w hw] at hsaved
      cases hgenerations : s.generations env (s.cfg.numGenerations + 1 - first) first 0 0 w with
      | mk r' w' =>
        rw [hgenerations] at hlog
        have hall : SavedAs (startReason s (env 0)) w'.log := by
          rw [hlog]
          exact hsaved.append hstart
        cases r' with
        | error e =>
          rw [Prog.bind_error hgenerations]
          exact hall
        | ok u =>
          rw [Prog.bind_ok hgenerations]
          exact hall

theorem completed_reason (report : RunReport) : report.completed.stoppedReason ≠ "running".toList := by
  unfold RunReport.completed
  split
  · show "completed".toList ≠ "running".toList
    decide
  · assumption

theorem run_returns {report : RunReport} {w : LoopWorld} (h : s.run env {} = (.ok report, w)) :
    report.stoppedReason ≠ "running".toList := by
  obtain ⟨first, w₁, _, h⟩ := Prog.bind_returns h
  obtain ⟨u, w₂, _, h⟩ := Prog.bind_returns h
  have hreport : (finish env w₂).1 = .ok (RunReport.withBest (RunReport.completed w₂.report) (env w₂.asked).best) := rfl
  rw [h] at hreport
  rw [Except.ok.inj hreport, Frame.keepsReason_withBest]
  exact completed_reason w₂.report

end EvoHarness.Core.SearchLoop
