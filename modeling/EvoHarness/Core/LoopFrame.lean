import EvoHarness.Core.SearchLoop

/-! What no step of a generation touches. A relation on worlds that allows the changes of a
component is kept by every part of the loop up to the point where the run stops. -/
namespace EvoHarness.Core.SearchLoop
open PyText Hoare

def KeepsReason (f : RunReport → RunReport) : Prop := ∀ r, (f r).stoppedReason = r.stoppedReason

structure Frame (R : LoopWorld → LoopWorld → Prop) : Prop where
  refl : ∀ w, R w w
  trans : ∀ u v w, R u v → R v w → R u w
  asked : ∀ w, R w { w with asked := w.asked + 1 }
  report : ∀ f, KeepsReason f → ∀ w, R w { w with report := f w.report }
  began : ∀ generation w, R w { w with log := .began generation :: w.log }
  charged : ∀ usd w, R w { w with log := .charged usd :: w.log }
  graded : ∀ usd w, R w { w with log := .graded usd :: w.log }
  saved : ∀ generation w, R w { w with log := .saved w.report generation :: w.log }

variable {R : LoopWorld → LoopWorld → Prop} {α β : Type} {s : SearchLoop} {env : ℕ → LoopReply}

namespace Frame

theorem pure (hR : Frame R) (a : α) : Prog.Moves R (Pure.pure a : Prog LoopWorld RunFault α) := Prog.Moves.pure hR.refl a

theorem raise (hR : Frame R) (e : RunFault) : Prog.Moves R (Prog.raise e : Prog LoopWorld RunFault α) :=
  Prog.Moves.raise hR.refl e

theorem bind (hR : Frame R) {m : Prog LoopWorld RunFault α} {f : α → Prog LoopWorld RunFault β}
    (hm : Prog.Moves R m) (hf : ∀ a, Prog.Moves R (f a)) : Prog.Moves R (m >>= f) := Prog.Moves.bind hR.trans hm hf

theorem rescue (hR : Frame R) {m : Prog LoopWorld RunFault α} {caught : RunFault → Option (Prog LoopWorld RunFault α)}
    (hm : Prog.Moves R m) (hc : ∀ e handle, caught e = some handle → Prog.Moves R handle) :
    Prog.Moves R (Prog.rescue m caught) := Prog.Moves.rescue hR.trans hm hc

theorem map (hR : Frame R) {m : Prog LoopWorld RunFault α} (f : α → β) (hm : Prog.Moves R m) :
    Prog.Moves R (f <$> m) := by
  rw [map_eq_pure_bind]
  exact hR.bind hm fun a => hR.pure (f a)

theorem consult (hR : Frame R) : Prog.Moves R (consult env) := hR.asked

theorem raiseIf (hR : Frame R) (e : Option RunFault) : Prog.Moves R (raiseIf e) := by
  cases e with
  | none => exact hR.pure ()
  | some e => exact hR.raise e

theorem component (hR : Frame R) : Prog.Moves R (component env) :=
  hR.bind hR.consult fun r => hR.bind (hR.raiseIf r.raised) fun _ => hR.pure r

theorem changeReport (hR : Frame R) {f : RunReport → RunReport} (hf : KeepsReason f) :
    Prog.Moves R (changeReport f) := hR.report f hf

theorem record (hR : Frame R) (row : HistoryRow) : Prog.Moves R (record row) := hR.changeReport fun _ => rfl

theorem ofExcept (hR : Frame R) (x : Except RunFault α) : Prog.Moves R (ofExcept x) := by
  cases x with
  | ok a => exact hR.pure a
  | error e => exact hR.raise e

theorem charge (hR : Frame R) (usd : ℚ≥0) : Prog.Moves R (charge env usd) :=
  hR.bind (hR.charged usd) fun _ => hR.bind hR.component fun _ => hR.pure ()

theorem saveCheckpoint (hR : Frame R) (generation : ℕ) : Prog.Moves R (saveCheckpoint env generation) := by
  refine hR.bind hR.component fun _ => ?_
  intro w
  exact hR.saved generation w

theorem notifyRejected (hR : Frame R) : Prog.Moves R (notifyRejected env) := hR.bind hR.component fun _ => hR.pure ()

theorem planProposal (hR : Frame R) : Prog.Moves R (planProposal env) := hR.bind hR.component fun _ => hR.pure _

theorem planAll (hR : Frame R) (count : ℕ) : Prog.Moves R (planAll env count) := by
  induction count with
  | zero => exact hR.pure []
  | succ count ih =>
    refine hR.bind hR.planProposal fun plan => ?_
    cases plan with
    | none => exact hR.pure []
    | some plan => exact hR.bind ih fun rest => hR.pure _

theorem admitted (hR : Frame R) (generation : ℕ) (plan : ProposalPlan) (proposal : Proposal) :
    Prog.Moves R (s.admitted env generation plan proposal) := by
  unfold SearchLoop.admitted
  split
  · refine hR.bind hR.component fun r => ?_
    split
    · exact hR.pure _
    · exact hR.bind (hR.changeReport fun _ => rfl) fun _ => hR.bind hR.notifyRejected fun _ => hR.pure _
  · exact hR.bind hR.consult fun _ => hR.pure _

theorem absorbProposal (hR : Frame R) (generation : ℕ) (plan : ProposalPlan) (result : ProposeResult) :
    Prog.Moves R (s.absorbProposal env generation plan result) := by
  refine hR.bind (hR.charge _) fun _ => hR.bind (hR.changeReport fun _ => rfl) fun _ => ?_
  cases result.proposal with
  | none =>
    refine hR.bind (hR.changeReport fun _ => rfl) fun _ => hR.bind (hR.record _) fun _ => ?_
    exact hR.bind hR.notifyRejected fun _ => hR.pure _
  | some proposal =>
    refine hR.bind hR.consult fun r => ?_
    split
    · refine hR.bind (hR.changeReport fun _ => rfl) fun _ => hR.bind (hR.record _) fun _ => ?_
      exact hR.bind hR.notifyRejected fun _ => hR.pure _
    · exact hR.admitted generation plan proposal

theorem takeReport (hR : Frame R) (r : EvalReport) : Prog.Moves R (takeReport env r) :=
  hR.bind (hR.charge _) fun _ => hR.changeReport fun _ => rfl

theorem returned (hR : Frame R) (answer : GradeAnswer) : Prog.Moves R (returned answer) := by
  cases answer with
  | report r => exact hR.graded r.evalCostUsd
  | infra error => exact hR.pure ()
  | raised described => exact hR.pure ()

theorem grade (hR : Frame R) : Prog.Moves R (grade env) :=
  hR.bind hR.component fun _ => hR.bind (hR.returned _) fun _ =>
    hR.bind (hR.ofExcept _) fun rep => hR.bind (hR.takeReport rep) fun _ => hR.pure rep

theorem gradeAll (hR : Frame R) (cands : List Candidate) : Prog.Moves R (gradeAll env cands) := by
  refine hR.bind hR.component fun r => hR.bind ?_ fun _ => hR.ofExcept _
  exact Prog.Moves.forEach hR.refl hR.trans (fun _ => hR.returned _) _

theorem absorbOutcome (hR : Frame R) (generation infraStreak : ℕ) (cand : Candidate) (o : Except Text EvalReport) :
    Prog.Moves R (absorbOutcome env generation infraStreak cand o) := by
  cases o with
  | error error => exact hR.bind (hR.record _) fun _ => hR.pure _
  | ok r =>
    exact hR.bind (hR.takeReport r) fun _ => hR.bind hR.component fun _ => hR.bind (hR.record _) fun _ => hR.pure _

theorem absorbOutcomes (hR : Frame R) (generation : ℕ) (outcomes : List (Candidate × Except Text EvalReport))
    (infraStreak : ℕ) : Prog.Moves R (absorbOutcomes env generation outcomes infraStreak) := by
  induction outcomes generalizing infraStreak with
  | nil => exact hR.pure _
  | cons o rest ih => exact hR.bind (hR.absorbOutcome generation infraStreak o.1 o.2) fun streak => ih streak

theorem housekeeping (hR : Frame R) : Prog.Moves R (housekeeping env) :=
  hR.bind hR.component fun _ => hR.changeReport fun _ => rfl

theorem keepsReason_withBest (best : Option (Text × ℚ)) : KeepsReason (RunReport.withBest · best) := by
  intro r
  cases best with
  | none => rfl
  | some best => rfl

theorem noteBest (hR : Frame R) : Prog.Moves R (noteBest env) :=
  hR.bind hR.consult fun r => hR.changeReport (keepsReason_withBest r.best)

theorem complete (hR : Frame R) (generation : ℕ) : Prog.Moves R (complete env generation) :=
  hR.bind (hR.changeReport fun _ => rfl) fun _ => hR.saveCheckpoint generation

theorem tryGrade (hR : Frame R) : Prog.Moves R (tryGrade env) := by
  refine hR.rescue (hR.map _ hR.grade) fun e handle he => ?_
  cases e with
  | evalInfra error => cases he; exact hR.pure _
  | billing error => cases he
  | other described => cases he

theorem gradeSeed (hR : Frame R) (left : ℕ) : Prog.Moves R (gradeSeed env left) := by
  induction left with
  | zero => exact hR.grade
  | succ left ih =>
    refine hR.rescue hR.grade fun e handle he => ?_
    cases e with
    | evalInfra error => cases he; exact ih
    | billing error => cases he
    | other described => cases he

theorem seedAll (hR : Frame R) (seeds : List Workspace) : Prog.Moves R (s.seedAll env seeds) := by
  induction seeds with
  | nil => exact hR.pure ()
  | cons w rest ih => exact hR.bind (hR.gradeSeed _) fun _ => hR.bind hR.component fun _ => ih

end Frame

structure FullFrame (R : LoopWorld → LoopWorld → Prop) : Prop extends Frame R where
  called : ∀ calls w, R w { w with log := .called w.report calls :: w.log }

namespace FullFrame

theorem callOne (hR : FullFrame R) (plan : ProposalPlan) : Prog.Moves R (s.callOne env plan) :=
  hR.bind hR.consult fun _ => hR.bind (hR.called _) fun _ => hR.ofExcept _

theorem callAll (hR : FullFrame R) (plans : List ProposalPlan) : Prog.Moves R (s.callAll env plans) :=
  hR.bind hR.consult fun _ => hR.bind (hR.called _) fun _ => hR.ofExcept _

theorem propose (hR : FullFrame R) (generation left : ℕ) : Prog.Moves R (s.propose env generation left) := by
  induction left with
  | zero => exact hR.pure none
  | succ left ih =>
    refine hR.bind hR.planProposal fun plan => ?_
    cases plan with
    | none => exact hR.pure none
    | some plan =>
      refine hR.bind (hR.callOne plan) fun result => hR.bind (hR.absorbProposal generation plan result) fun absorbed => ?_
      split
      · exact hR.pure _
      · exact hR.pure none
      · exact ih

theorem proposeEach (hR : FullFrame R) (generation count : ℕ) : Prog.Moves R (s.proposeEach env generation count) := by
  induction count with
  | zero => exact hR.pure _
  | succ count ih => exact hR.bind (hR.propose generation _) fun cand => hR.bind ih fun rest => hR.pure _

theorem absorbOrRetry (hR : FullFrame R) (generation : ℕ) (plan : ProposalPlan) (result : ProposeResult) :
    Prog.Moves R (s.absorbOrRetry env generation plan result) := by
  refine hR.bind (hR.absorbProposal generation plan result) fun absorbed => ?_
  split
  · exact hR.pure _
  · exact hR.pure _
  · exact hR.map _ (hR.propose generation _)

theorem absorbAll (hR : FullFrame R) (generation : ℕ) (pairs : List (ProposalPlan × ProposeResult)) :
    Prog.Moves R (s.absorbAll env generation pairs) := by
  induction pairs with
  | nil => exact hR.pure []
  | cons pair rest ih =>
    exact hR.bind (hR.absorbOrRetry generation pair.1 pair.2) fun cands => hR.bind ih fun more => hR.pure _

theorem proposeMany (hR : FullFrame R) (generation count : ℕ) : Prog.Moves R (s.proposeMany env generation count) := by
  unfold SearchLoop.proposeMany
  split
  · exact hR.proposeEach generation count
  · refine hR.bind (hR.planAll count) fun plans => ?_
    split
    · exact hR.pure []
    · exact hR.bind (hR.callAll plans) fun results => hR.absorbAll generation _

theorem runBatchGeneration (hR : FullFrame R) (generation infraStreak : ℕ) :
    Prog.Moves R (s.runBatchGeneration env generation infraStreak) := by
  refine hR.bind (hR.proposeMany generation _) fun cands => ?_
  split
  · exact hR.bind (hR.record _) fun _ => hR.pure _
  · refine hR.bind (hR.gradeAll cands) fun outcomes => hR.bind (hR.absorbOutcomes generation outcomes _) fun streak => ?_
    exact hR.bind hR.housekeeping fun _ => hR.bind hR.noteBest fun _ => hR.pure _

theorem unlessBilling (hR : FullFrame R) {m : Prog LoopWorld RunFault α} (hm : Prog.Moves R m) :
    Prog.Moves R (unlessBilling m) := by
  refine hR.rescue (hR.map _ hm) fun e handle he => ?_
  cases e with
  | billing error => cases he; exact hR.pure none
  | evalInfra error => cases he
  | other described => cases he

end FullFrame
end EvoHarness.Core.SearchLoop
