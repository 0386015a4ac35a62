import EvoHarness.Research.Ledger
import EvoHarness.Library.Lines
import Mathlib.Logic.Function.Basic

/-! Signing a card from a terminal: it is shown, its id is typed back, and the answer is a transaction of its own,
between those of every other process. -/
namespace EvoHarness.Research.Signing
open PyText

structure Desk where
  root : Text
  hasLedger : Bool
  actorsFile : Option Text

/-- The arguments of `answer_card`; `signer` is the user of the process. -/
structure Args where
  requestId : Text
  action : Text
  reason : Text
  signer : Text

inductive SignFault where
  | answerRefused (message : Text)
  | inbox (r : Refusal)

def actorsName : Text := "authorized_actors.txt".toList

def authorizedActors (d : Desk) : Except SignFault (List Text) :=
  match d.actorsFile with
  | none => .error (.answerRefused ("no ".toList ++ actorsName ++ " beside the ledger at ".toList ++ d.root ++
      (". Create it with one identity per line; it decides who may sign, which is why " ++
        "it is not something this command can be told.").toList))
  | some text =>
    let lines := (splitlines (universalNewlines text)).filter fun line => strip line ≠ [] ∧ (lstrip line).head? ≠ some '#'
    if lines = [] then .error (.answerRefused (d.root ++ '/' :: actorsName ++ " lists no identities".toList))
    else .ok (lines.map strip)

def openInbox (d : Desk) : Except SignFault (List Text) :=
  if d.hasLedger then authorizedActors d
  else .error (.answerRefused ("no research ledger at ".toList ++ d.root ++ "/research.sqlite3".toList))

section
variable {enc : CanonicalEncoders} {ω ν : Type}

def render (r : DecisionRequest enc.toEncoders) : Text :=
  join ['\n'] (
    ["  request   ".toList ++ r.requestId, "  kind      ".toList ++ r.kind, "  subject   ".toList ++ r.experimentId,
      "  question  ".toList ++ r.question,
      "  allowed   ".toList ++ join ", ".toList (derivedPolicy r.kind).allowedActions,
      "  default   ".toList ++ (derivedPolicy r.kind).defaultAction ++ "   (if nobody acts)".toList] ++
    (if r.consequenceOfWaiting = [] then [] else ["  waiting   ".toList ++ r.consequenceOfWaiting]) ++
    (if r.uncertainty = [] then [] else ["  unknown   ".toList ++ r.uncertainty]) ++
    (if r.evidenceRefs = [] then []
      else ["  evidence  ".toList ++ Nat.toDigits 10 r.evidenceRefs.length ++ " reference(s)".toList]))

def showCard (d : Desk) (l : Ledger enc ω) (a : Args) : Except SignFault (DecisionRequest enc.toEncoders × List Text) :=
  if strip a.reason = [] then
    .error (.answerRefused "a reason is required: a decision nobody explained cannot be reviewed later".toList)
  else
    match openInbox d with
    | .error e => .error e
    | .ok _ =>
      match l.get a.requestId with
      | .error r => .error (.inbox r)
      | .ok request => .ok (request, [render request, "\nsigning as ".toList ++ a.signer ++ ": ".toList ++ a.action])

def Args.answering (a : Args) (now : ℚ) : Answering := ⟨a.requestId, a.action, a.signer, a.reason, "cli".toList, now⟩

structure Session (enc : CanonicalEncoders) where
  args : Args
  request : DecisionRequest enc.toEncoders
  shown : List Text

structure Signature (enc : CanonicalEncoders) (ω ν : Type) where
  signer : ω
  session : Session enc
  typed : Text
  row : DecisionRow (ω ⊕ ν)

/-- One ledger of the sessions `ω` and of the other processes `ν`. -/
structure World (enc : CanonicalEncoders) (ω ν : Type) where
  ledger : Ledger enc (ω ⊕ ν) := {}
  sessions : ω → Option (Session enc) := fun _ => none
  signed : List (Signature enc ω ν) := []

inductive Event (ω ν : Type) where
  | opened (w : ω) (a : Args)
  | typed (w : ω) (text : Text) (now : ℚ)
  | committed (v : ν) (t : Transaction)

structure Place (ω ν : Type) where
  desk : ω → Desk
  inboxes : ν → List Text

def actors (d : Desk) : List Text :=
  match openInbox d with
  | .ok names => names
  | .error _ => []

def Place.authorized (place : Place ω ν) : ω ⊕ ν → List Text := Sum.elim (fun w => actors (place.desk w)) place.inboxes

/-- What was typed ends a session: with the transaction of `InboxStore.answer`, or with nothing written. -/
def step [DecidableEq ω] (place : Place ω ν) (s : World enc ω ν) : Event ω ν → World enc ω ν
  | .opened w a =>
    match showCard (place.desk w) s.ledger a with
    | .error _ => s
    | .ok (request, shown) => { s with sessions := Function.update s.sessions w (some ⟨a, request, shown⟩) }
  | .typed w text now =>
    match s.sessions w with
    | none => s
    | some session =>
      let ended := { s with sessions := Function.update s.sessions w none }
      if strip text ≠ session.args.requestId then ended
      else
        match s.ledger.answer (actors (place.desk w)) (.inl w) (session.args.answering now) with
        | (.error _, _) => ended
        | (.ok decision, ledger) =>
          { ended with ledger, signed := s.signed ++ [⟨w, session, text, ⟨some session.args.requestId, decision, .inl w⟩⟩] }
  | .committed v t => { s with ledger := s.ledger.commit place.authorized (.inr v, t) }

def run [DecidableEq ω] (place : Place ω ν) (s : World enc ω ν) (es : List (Event ω ν)) : World enc ω ν := es.foldl (step place) s

/-- An answer that is recorded is a row for the request that is looked up, by an actor of the inbox. -/
theorem answer_ok {l l' : Ledger enc ω} {names : List Text} {w : ω} {a : Answering} {d : ResearchDecision}
    (h : l.answer names w a = (.ok d, l')) : a.actor ∈ names ∧ ∃ r, l.get a.requestId = .ok r ∧ d = a.decision r.experimentId ∧
      a.action ∈ (derivedPolicy r.kind).allowedActions ∧ l'.decisions = l.decisions ++ [⟨some a.requestId, d, w⟩] := by
  unfold Ledger.answer at h
  split at h
  · cases h
  · next hactor =>
    cases hget : l.get a.requestId with
    | error e =>
      rw [hget] at h
      cases h
    | ok r =>
      rw [hget] at h
      replace h : l.answerOf w r a = (.ok d, l') := h
      unfold Ledger.answerOf at h
      split at h
      · cases h
      · next haction =>
        split at h
        · cases h
        · split at h
          · cases h
          · cases h
            exact ⟨not_not.mp hactor, r, rfl, rfl, not_not.mp haction, rfl⟩

def Listed (d : Desk) (name : Text) : Prop :=
  ∃ text line, d.actorsFile = some text ∧ line ∈ splitlines (universalNewlines text) ∧ strip line = name ∧ name ≠ [] ∧
    (lstrip line).head? ≠ some '#'

theorem listed_of_actors {d : Desk} {name : Text} (h : name ∈ actors d) : d.hasLedger = true ∧ Listed d name := by
  unfold actors openInbox at h
  split at h
  · next names hnames =>
    split at hnames
    · next hledger =>
      refine ⟨hledger, ?_⟩
      unfold authorizedActors at hnames
      split at hnames
      · cases hnames
      · next text htext =>
        dsimp only at hnames
        split at hnames
        · cases hnames
        · cases hnames
          obtain ⟨line, hline, rfl⟩ := List.mem_map.mp h
          obtain ⟨hmem, hkeep⟩ := List.mem_filter.mp hline
          exact ⟨text, line, htext, hmem, rfl, (of_decide_eq_true hkeep).1, (of_decide_eq_true hkeep).2⟩
    · cases hnames
  · cases h

/-- The request of a session is the one its card was rendered from, and what a look-up gives. -/
structure Session.Holds (l : Ledger enc ω) (s : Session enc) : Prop where
  found : l.get s.args.requestId = .ok s.request
  shown : s.shown = [render s.request, "\nsigning as ".toList ++ s.args.signer ++ ": ".toList ++ s.args.action]
  explained : strip s.args.reason ≠ []

structure Signature.Good (place : Place ω ν) (l : Ledger enc (ω ⊕ ν)) (s : Signature enc ω ν) : Prop where
  session : s.session.Holds l
  retyped : strip s.typed = s.session.args.requestId
  listed : (place.desk s.signer).hasLedger = true ∧ Listed (place.desk s.signer) s.session.args.signer
  allowed : s.session.args.action ∈ (derivedPolicy s.session.request.kind).allowedActions
  decision : ∃ now, s.row = ⟨some s.session.args.requestId,
    (s.session.args.answering now).decision s.session.request.experimentId, .inl s.signer⟩
  recorded : s.row ∈ l.decisions

structure Orderly (place : Place ω ν) (s : World enc ω ν) : Prop where
  kept : Kept place.authorized s.ledger
  sessions : ∀ w session, s.sessions w = some session → session.Holds s.ledger
  signed : ∀ sig ∈ s.signed, sig.Good place s.ledger

variable {place : Place ω ν}

theorem Session.Holds.commit {l : Ledger enc (ω ⊕ ν)} {s : Session enc} (h : s.Holds l) (t : (ω ⊕ ν) × Transaction) :
    s.Holds (l.commit place.authorized t) := ⟨get_commit t h.found, h.shown, h.explained⟩

theorem Signature.Good.commit {l : Ledger enc (ω ⊕ ν)} {s : Signature enc ω ν} (h : s.Good place l) (t : (ω ⊕ ν) × Transaction) :
    s.Good place (l.commit place.authorized t) :=
  ⟨h.session.commit t, h.retyped, h.listed, h.allowed, h.decision, (decisions_commit t).subset h.recorded⟩

theorem showCard_holds {d : Desk} {l : Ledger enc ω} {a : Args} {r : DecisionRequest enc.toEncoders} {shown : List Text}
    (h : showCard d l a = .ok (r, shown)) : Session.Holds l ⟨a, r, shown⟩ := by
  unfold showCard at h
  split at h
  · cases h
  · next hreason =>
    split at h
    · cases h
    · split at h
      · cases h
      · next request hget =>
        cases h
        exact ⟨hget, rfl, hreason⟩

variable [DecidableEq ω]

theorem sessions_update {s : World enc ω ν} {w : ω} {o : Option (Session enc)} {l : Ledger enc (ω ⊕ ν)}
    (h : ∀ v session, s.sessions v = some session → session.Holds l) (ho : ∀ session, o = some session → session.Holds l) :
    ∀ v session, Function.update s.sessions w o v = some session → session.Holds l := by
  intro v session hv
  by_cases hvw : v = w
  · rw [hvw, Function.update_self] at hv
    exact ho session hv
  · rw [Function.update_of_ne hvw] at hv
    exact h v session hv

theorem Orderly.step {s : World enc ω ν} (h : Orderly place s) (e : Event ω ν) : Orderly place (step place s e) := by
  cases e with
  | committed v t =>
    exact ⟨h.kept.commit (.inr v, t), fun w session hw => (h.sessions w session hw).commit (.inr v, t),
      fun sig hsig => (h.signed sig hsig).commit (.inr v, t)⟩
  | opened w a =>
    unfold Signing.step
    dsimp only
    split
    · exact h
    · next request shown hshow =>
      refine ⟨h.kept, sessions_update h.sessions fun session hsession => ?_, h.signed⟩
      cases hsession
      exact showCard_holds hshow
  | typed w text now =>
    unfold Signing.step
    dsimp only
    split
    · exact h
    · next session hsession =>
      have hheld := h.sessions w session hsession
      split
      · exact ⟨h.kept, sessions_update h.sessions nofun, h.signed⟩
      · next htyped =>
        split
        · exact ⟨h.kept, sessions_update h.sessions nofun, h.signed⟩
        · next decision ledger hanswer =>
          have hledger : s.ledger.commit place.authorized (.inl w, .answer (session.args.answering now)) = ledger := by
            show (s.ledger.answer (actors (place.desk w)) (.inl w) (session.args.answering now)).2 = ledger
            rw [hanswer]
          obtain ⟨hactor, r, hget, hdecision, haction, hrows⟩ := answer_ok hanswer
          have hsame : r = session.request := Except.ok.inj (hget.symm.trans hheld.found)
          subst hsame
          have hkept : Kept place.authorized ledger := hledger ▸ h.kept.commit _
          have hsessions : ∀ v other, s.sessions v = some other → other.Holds ledger :=
            fun v other hv => hledger ▸ (h.sessions v other hv).commit _
          refine ⟨hkept, sessions_update hsessions nofun, fun sig hsig => ?_⟩
          cases List.mem_append.mp hsig with
          | inl hsig =>
            have hgood : sig.Good place ledger := hledger ▸ (h.signed sig hsig).commit _
            exact hgood
          | inr hsig =>
            rw [List.mem_singleton.mp hsig]
            refine ⟨hsessions w session hsession, not_not.mp htyped, listed_of_actors hactor, haction, ⟨now, by rw [hdecision]⟩, ?_⟩
            rw [hrows]
            exact List.mem_append_right _ List.mem_cons_self

theorem Orderly.run {s : World enc ω ν} (h : Orderly place s) (es : List (Event ω ν)) : Orderly place (run place s es) := by
  induction es generalizing s with
  | nil => exact h
  | cons e es ih => exact ih (h.step e)

inductive Typed (s s' : World enc ω ν) : Prop where
  | nothing (ledger : s'.ledger = s.ledger) (signed : s'.signed = s.signed)
  | one (sig : Signature enc ω ν) (signed : s'.signed = s.signed ++ [sig])
      (decisions : s'.ledger.decisions = s.ledger.decisions ++ [sig.row])

theorem typed_step (s : World enc ω ν) (w : ω) (text : Text) (now : ℚ) : Typed s (step place s (.typed w text now)) := by
  unfold step
  dsimp only
  split
  · exact .nothing rfl rfl
  · split
    · exact .nothing rfl rfl
    · split
      · exact .nothing rfl rfl
      · next decision ledger hanswer =>
        obtain ⟨-, r, -, -, -, hrows⟩ := answer_ok hanswer
        exact .one _ rfl hrows

end

/-- However sessions, other processes and edits of the file of actors come between each other: the ledger is sound, so no
card has two answers; what a session signs is the card it showed, under its retyped id, with a reason and a name that
its file lists; and a line that signs nothing leaves the ledger as it was. -/
theorem signed_as_shown {enc : CanonicalEncoders} {ω ν : Type} [DecidableEq ω] (place : Place ω ν) (es : List (Event ω ν)) :
    (run place ({} : World enc ω ν) es).ledger.Sound place.authorized ∧
      (∀ sig ∈ (run place ({} : World enc ω ν) es).signed, sig.Good place (run place {} es).ledger) ∧
      ∀ w text now, Typed (run place ({} : World enc ω ν) es) (step place (run place {} es) (.typed w text now)) := by
  have hstart : Orderly place ({} : World enc ω ν) := ⟨kept_empty, fun _ _ h => (by cases h), fun _ h => (by cases h)⟩
  obtain ⟨hkept, -, hsigned⟩ := hstart.run es
  exact ⟨hkept.sound, hsigned, typed_step _⟩

end EvoHarness.Research.Signing
