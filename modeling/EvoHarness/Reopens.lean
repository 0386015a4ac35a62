import EvoHarness.StaysPut
import EvoHarness.Library.Runs

/-! Which sessions leave a board that opens again without its header being restated. -/
namespace EvoHarness.Proof
open PyText Hoare Runs

variable {σ : Type}

/-- The recorded scope is about the stored header, and a command that states nothing
opens the graph under it. -/
def Reopens (o : Outside σ) (s : Session σ) : Prop :=
  ∀ stored, s.work.readScope = some stored →
    stored.preambleSha256 = preambleSha256 o.sha256 (storedPreamble s.work.header) ∧
    ∀ fields, (openStore o {} none s.work).1 ≠ .error (.scopeMismatch fields)

def cliStep (o : Outside σ) (s : Session σ) (a : Flags × CliCommand) : Option (Session σ) :=
  if (main o a.1 a.2 s).1 = some 0 then some (main o a.1 a.2 s).2 else none

def HeaderKept (o : Outside σ) (s : Session σ) (a : Flags × CliCommand) : Prop :=
  match a.2 with
  | .opening _ _ (some text) =>
    preambleSha256 o.sha256 text = preambleSha256 o.sha256 (storedPreamble (some (writtenPreamble text)))
  | .sketch _ _ (some text) _ | .attack _ _ _ (some text) _ _ =>
    preambleSha256 o.sha256 text = preambleSha256 o.sha256 (storedPreamble s.work.header)
  | .assemble i (some .header) routes => ∀ opened w text,
    openStore o a.1 none s.work = (.ok opened, w) →
    assembledText o opened.1 { board := opened.2, header := w.header, env := s.env } i routes = some text →
    preambleSha256 o.sha256 (storedPreamble s.work.header) =
      preambleSha256 o.sha256 (storedPreamble (some text))
  | _ => True

section
variable {o : Outside σ} {f : Flags} {c : CliCommand} {s : Session σ} {stated : Option Text}
  {w w' : Workspace} {opened : GraphScope × Board} {stored : GraphScope}

structure Native (o : Outside σ) (stored : GraphScope) : Prop where
  environment : stored.environment = o.environment
  current : stored.Current

theorem wantedScope_ok {wanted : GraphScope} (h : wantedScope o f stated w = .ok wanted) :
    Native o wanted ∧
      wanted.preambleSha256 = preambleSha256 o.sha256 (readPreamble stated w.header) := by
  unfold wantedScope at h
  split at h
  · simp at h
  · split at h
    · simp at h
    · split at h
      · simp at h
      · obtain rfl := Except.ok.inj h
        exact ⟨⟨rfl, GraphScope.current_resolve ..⟩, rfl⟩

theorem openUnder_ok (h : openUnder o f stated w = (.ok opened, w')) :
    w'.header = w.header ∧ opened.2.scope = some opened.1 ∧ Native o opened.1 ∧
      opened.1.preambleSha256 = preambleSha256 o.sha256 (readPreamble stated w.header) := by
  cases hwanted : wantedScope o f stated w with
  | error e => simp [openUnder_refused hwanted] at h
  | ok wanted =>
    obtain ⟨hnative, hsha⟩ := wantedScope_ok hwanted
    cases openUnder_wanted (o := o) hwanted with
    | inl hs =>
      obtain ⟨e, _, hs⟩ := hs
      simp [hs] at h
    | inr hs =>
      obtain ⟨opened', hsettle, hs⟩ := hs
      rw [hs] at h
      obtain ⟨hopened, rfl⟩ := Prod.mk.inj h
      obtain rfl := Except.ok.inj hopened
      refine ⟨rfl, ?_⟩
      cases hscope : (w.graph.getD {}).scope with
      | none =>
        obtain ⟨rfl, _⟩ := settleScope_unscoped hscope hsettle
        exact ⟨rfl, hnative, hsha⟩
      | some stored =>
        obtain ⟨rfl, _, hdiff⟩ := settleScope_stored hscope hsettle
        obtain ⟨henv, _, _, hpre, hpolicy, henvelope, hgoalkey, hversion⟩ :=
          GraphScope.diff_eq_nil_iff.mp hdiff
        refine ⟨hscope, ⟨henv.trans hnative.environment, ?_⟩, hpre.trans hsha⟩
        exact ⟨hpolicy.trans hnative.current.axiomPolicy, henvelope.trans hnative.current.envelope,
          hgoalkey.trans hnative.current.goalkey, hversion.trans hnative.current.scope⟩

theorem unstated_opens (hs : w.readScope = some stored) (hn : Native o stored)
    (hsha : stored.preambleSha256 = preambleSha256 o.sha256 (storedPreamble w.header)) (fields : List Text) :
    (openStore o {} none w).1 ≠ .error (.scopeMismatch fields) := by
  have hopen : openStore o {} none w = openUnder o {} none w := rfl
  rw [hopen]
  have hb : Headed none w := by simp [Headed, hs]
  cases hctx : preambleContext (readPreamble none w.header) with
  | error m => simp [openUnder_refused (wantedScope_context hb hctx)]
  | ok ctx =>
    have hwanted := wantedScope_stated (o := o) (f := {}) hb hctx rfl
    have hboard : (w.graph.getD {}).scope = some stored := (readScope_eq w).symm.trans hs
    have hdiff : stored.diff (GraphScope.resolve (some stored) o.environment
        (preambleSha256 o.sha256 (storedPreamble w.header)) none none) = [] := by
      rw [← hn.environment]
      exact (GraphScope.diff_resolve_unstated hn.current _).mpr hsha
    rw [hs] at hwanted
    cases openUnder_wanted (o := o) hwanted with
    | inl h =>
      obtain ⟨e, hsettle, _⟩ := h
      unfold settleScope at hsettle
      rw [hboard] at hsettle
      simp [hdiff] at hsettle
    | inr h =>
      obtain ⟨opened, _, h⟩ := h
      simp [h]

theorem preambleSha256_strip (text : Text) :
    preambleSha256 o.sha256 (strip text) = preambleSha256 o.sha256 text := by
  rw [preambleSha256, preambleSha256, strip_of_trimmed (trimmed_strip text)]

theorem cliStep_cases {t : Session σ} (h : cliStep o s (f, c) = some t) :
    c.unreadable = none ∧ ∃ opened w, openStore o f c.preamble s.work = (.ok opened, w) ∧
      let d : Desk σ := { board := opened.2, header := w.header, env := s.env }
      t.work.readScope = opened.2.scope ∧ t.work.header = headerAfter o opened.1 d c := by
  unfold cliStep at h
  split at h
  · next hexit =>
    obtain rfl := Option.some.inj h
    cases hc : c.unreadable with
    | some e =>
      rw [main_unreadable hc] at hexit
      simp at hexit
    | none =>
      refine ⟨rfl, ?_⟩
      cases hopen : openStore o f c.preamble s.work with
      | mk r w =>
        cases r with
        | error e =>
          rw [main_refused hc hopen] at hexit
          cases he : e.caught <;> simp [exitCode, he] at hexit
        | ok opened =>
          have hmain := main_opened hc hopen
          have hdoes : Does o opened.1 { board := opened.2, header := w.header, env := s.env } c
              (body o opened.1 c { board := opened.2, header := w.header, env := s.env }) := body_does c _
          rw [hmain] at hexit ⊢
          have hok : (body o opened.1 c { board := opened.2, header := w.header, env := s.env }).1 = .ok () := by
            cases hr : (body o opened.1 c { board := opened.2, header := w.header, env := s.env }).1 with
            | ok u => rfl
            | error e =>
              rw [hr] at hexit
              cases he : e.caught <;> simp [exitCode, he] at hexit
          exact ⟨opened, w, rfl, hdoes.sameScope, hdoes.header hok⟩
  · simp at h

/-- Only an `open` that states a preamble succeeds on a board it has just moved aside. -/
theorem header_of_cliStep {t : Session σ} (h : cliStep o s (f, c) = some t)
    (hopen : openStore o f c.preamble s.work = (.ok opened, w)) :
    (∃ statement label text, c = .opening statement label (some text)) ∨ w.header = s.work.header := by
  have hc := (cliStep_cases h).1
  cases haside : movesAside o f c.preamble s.work with
  | error e => simp [movesAside_error haside] at hopen
  | ok aside =>
    by_cases hm : Moves o f c s.work
    · have hretire : openStore o f c.preamble s.work = openUnder o f c.preamble s.work.retire :=
        openStore_begun hm.1
      have hexit := exit_anew hc (by rw [retire_of_some hm.2]) hretire
      have hone : (main o f c s).1 ≠ some 1 := by
        unfold cliStep at h
        split at h
        · next hzero => simp [hzero]
        · simp at h
      rw [ne_eq, hexit, not_not] at hone
      obtain ⟨statement, label, text, _, _, hopening, _⟩ := hone
      exact Or.inl ⟨statement, label, text, hopening⟩
    · rw [openStore_of_not_moves hm haside] at hopen
      exact Or.inr (openUnder_ok hopen).1

/-- After a successful command the board opens again exactly if the command kept its header. -/
theorem reopens_step {t : Session σ} (h : cliStep o s (f, c) = some t) :
    Reopens o t ↔ HeaderKept o s (f, c) := by
  obtain ⟨hc, opened, w, hopen, hscope, hheader⟩ := cliStep_cases h
  have hopened : ∃ u, openUnder o f c.preamble u = (.ok opened, w) := by
    cases haside : movesAside o f c.preamble s.work with
    | error e => simp [movesAside_error haside] at hopen
    | ok aside => exact ⟨_, (openStore_begun haside).symm.trans hopen⟩
  obtain ⟨u, hunder⟩ := hopened
  obtain ⟨hsame, hrecorded, hnative, hsha⟩ := openUnder_ok hunder
  rw [← hsame] at hsha
  have hread : t.work.readScope = some opened.1 := hscope.trans hrecorded
  -- the recorded scope is about the header it was opened with, the file is what is left
  have hiff : Reopens o t ↔ preambleSha256 o.sha256 (readPreamble c.preamble w.header) =
      preambleSha256 o.sha256 (storedPreamble t.work.header) := by
    constructor
    · intro hr
      rw [← hsha]
      exact (hr opened.1 hread).1
    · intro heq stored hstored
      obtain rfl := Option.some.inj (hread.symm.trans hstored)
      exact ⟨hsha.trans heq, unstated_opens hread hnative (hsha.trans heq)⟩
  rw [hiff, hheader]
  have hstays := header_of_cliStep h hopen
  cases c with
  | opening statement label preamble =>
    cases preamble with
    | none =>
      simp [HeaderKept, CliCommand.preamble, headerAfter]
    | some text =>
      simp [HeaderKept, CliCommand.preamble, headerAfter, preambleSha256_strip]
  | status goal => simp [HeaderKept, CliCommand.preamble, headerAfter]
  | sketch goal proposal preamble flags =>
    cases preamble with
    | none => simp [HeaderKept, CliCommand.preamble, headerAfter]
    | some text =>
      have hkept : w.header = s.work.header := by simpa using hstays
      simp [HeaderKept, CliCommand.preamble, headerAfter, preambleSha256_strip, hkept]
  | attack goal budget n preamble allow flags =>
    cases preamble with
    | none => simp [HeaderKept, CliCommand.preamble, headerAfter]
    | some text =>
      have hkept : w.header = s.work.header := by simpa using hstays
      simp [HeaderKept, CliCommand.preamble, headerAfter, preambleSha256_strip, hkept]
  | attempt goal id code => simp [HeaderKept, CliCommand.preamble, headerAfter]
  | assemble goal out routes =>
    have hkept : w.header = s.work.header := by simpa using hstays
    cases out with
    | none => simp [HeaderKept, CliCommand.preamble, headerAfter]
    | some path =>
      cases path with
      | elsewhere => simp [HeaderKept, CliCommand.preamble, headerAfter]
      | header =>
        have hpreamble : (CliCommand.assemble goal (some .header) routes).preamble = none := rfl
        rw [hpreamble] at hopen ⊢
        rw [readPreamble_none, hkept]
        have hwritten : ∀ opened' w' text, openStore o f none s.work = (.ok opened', w') →
            assembledText o opened'.1 { board := opened'.2, header := w'.header, env := s.env } goal routes = some text →
            assembledText o opened.1 { board := opened.2, header := s.work.header, env := s.env } goal routes =
              some text := by
          intro opened' w' text hopen' htext
          obtain ⟨h₁, rfl⟩ := Prod.mk.inj (hopen.symm.trans hopen')
          obtain rfl := Except.ok.inj h₁
          rwa [hkept] at htext
        cases ht : assembledText o opened.1 { board := opened.2, header := s.work.header, env := s.env } goal
            routes with
        | none =>
          constructor
          · intro _ opened' w' text hopen' htext
            have hnone := ht.symm.trans (hwritten opened' w' text hopen' htext)
            simp at hnone
          · intro _
            simp [headerAfter, ht]
        | some text =>
          constructor
          · intro heq opened' w' text' hopen' htext
            obtain rfl := Option.some.inj (ht.symm.trans (hwritten opened' w' text' hopen' htext))
            simpa [headerAfter, ht] using heq
          · intro hall
            rw [← hkept] at ht
            have hsame := hall opened w text hopen ht
            rw [hkept] at ht
            simpa [headerAfter, ht] using hsame

end

/-- A session of successful commands keeps its board openable exactly if every command of
it keeps the header. -/
theorem reopens_iff_header_kept (o : Outside σ) (s : Session σ) (cs : List (Flags × CliCommand))
    (hs : s.work.readScope = none) :
    Everywhere (cliStep o) (Reopens o) s cs ↔ Meets (cliStep o) (HeaderKept o) s cs := by
  have hstart : Reopens o s := by
    intro stored hstored
    simp [hs] at hstored
  apply everywhere_iff_meets (J := fun _ => True) (fun _ _ _ _ _ => trivial) _ trivial hstart
  intro s a t _ _ ht
  exact reopens_step ht

def noWork : Session Unit := { work := {}, env := () }

def openTrue : CliCommand :=
  .opening "theorem foo : True".toList [] (some "import Mathlib\n".toList)

theorem reopens_after_open :
    (run (cliStep bareOutside) noWork [({}, openTrue), ({}, .status none)]).isSome = true ∧
      Everywhere (cliStep bareOutside) (Reopens bareOutside) noWork [({}, openTrue), ({}, .status none)] := by
  constructor
  · decide
  · apply (reopens_iff_header_kept bareOutside noWork _ rfl).mpr
    intro t _
    constructor
    · show preambleSha256 id "import Mathlib\n".toList =
        preambleSha256 id (storedPreamble (some (writtenPreamble "import Mathlib\n".toList)))
      rw [storedPreamble_written (by decide)]
      decide
    · intro u _
      exact ⟨trivial, trivial⟩

def unscopedBoard : Session Unit := { work := { graph := some { store := twoRoutes } }, env := () }

/-- `--adopt-scope sketch` records the preamble it states, and does not store it. -/
theorem adopted_preamble_not_stored :
    ¬ Everywhere (cliStep bareOutside) (Reopens bareOutside) unscopedBoard
      [({ adoptScope := true }, .sketch 0 [] (some "import Mathlib".toList) {})] := by
  intro h
  have hrun : (run (cliStep bareOutside) unscopedBoard
      [({ adoptScope := true }, .sketch 0 [] (some "import Mathlib".toList) {})]).map
      (fun t => (t.work.readScope.map (·.preambleSha256), t.work.header)) =
      some (some "import Mathlib".toList, none) := by
    decide +kernel
  obtain ⟨t, ht, hleft⟩ := Option.map_eq_some_iff.mp hrun
  obtain ⟨hscope, hheader⟩ := Prod.mk.inj hleft
  obtain ⟨stored, hstored, hsha⟩ := Option.map_eq_some_iff.mp hscope
  have hsame := (everywhere_last h ht stored hstored).1
  rw [hsha, hheader] at hsame
  revert hsame
  decide

end EvoHarness.Proof
