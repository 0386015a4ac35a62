import EvoHarness.Library.PyText

/-! Directives of a person who watches the run: the book that two plugins share, and how long guidance stays in it. -/
namespace EvoHarness.Evoplus
open PyText

inductive DirectiveKind where
  | guidance
  | lineageVeto
deriving DecidableEq

structure Directive where
  id : Text
  kind : DirectiveKind
  text : Text := []
  candidateIds : List Text := []
  ttlGenerations : Option ℤ := none
deriving DecidableEq

def Directive.timed (d : Directive) : Option ℤ := if d.kind = .guidance then d.ttlGenerations else none

/-- `control/directives.json`: its time, and what `Directive.from_json` makes of it, unless reading it raises. -/
structure ControlFile where
  mtime : ℚ
  directives : Option (List Directive)

structure DirectiveBook where
  mtime : Option ℚ := none
  directives : List Directive := []
  firstSeen : Text → Option ℤ := fun _ => none

namespace DirectiveBook

def reloadIfChanged (file : Option ControlFile) (b : DirectiveBook) : Bool × DirectiveBook :=
  match file with
  | none => (true, { b with directives := [] })
  | some f =>
    if some f.mtime = b.mtime then (true, b)
    else
      match f.directives with
      | none => (false, { b with mtime := some f.mtime })
      | some ds => (true, { b with mtime := some f.mtime, directives := ds })

/-- The loop of `active`: what it returns, and when each directive was seen first. -/
def visit (generation : ℤ) : List Directive → (Text → Option ℤ) → List Directive × (Text → Option ℤ)
  | [], seen => ([], seen)
  | d :: ds, seen =>
    match d.timed with
    | none => (d :: (visit generation ds seen).1, (visit generation ds seen).2)
    | some ttl =>
      let first := (seen d.id).getD generation
      let rest := visit generation ds (Function.update seen d.id (some first))
      (if ttl ≤ generation - first then rest.1 else d :: rest.1, rest.2)

/-- `active(generation)`: the directives, unless it raises. -/
def active (file : Option ControlFile) (generation : ℤ) (b : DirectiveBook) : Option (List Directive) × DirectiveBook :=
  match reloadIfChanged file b with
  | (false, b') => (none, b')
  | (true, b') =>
    (some (visit generation b'.directives b'.firstSeen).1,
      { b' with firstSeen := (visit generation b'.directives b'.firstSeen).2 })

def Holds (b : DirectiveBook) (id : Text) : Prop := ∃ d ∈ b.directives, d.id = id ∧ d.timed.isSome = true

instance (b : DirectiveBook) (id : Text) : Decidable (b.Holds id) := List.decidableBEx _ _

end DirectiveBook
open DirectiveBook

/-- The two that ask the book: `HumanDirectiveContributor` for a prompt, and `LineageVetoPolicy` for a weight. -/
inductive Caller where
  | contributor
  | vetoPolicy
deriving DecidableEq

structure Call where
  caller : Caller
  generation : ℤ
deriving DecidableEq

def generationHint : ℤ := 10 ^ 9

def Call.asked (c : Call) : ℤ :=
  match c.caller with
  | .contributor => c.generation
  | .vetoPolicy => generationHint

inductive Event where
  | edit (file : Option ControlFile)
  | call (c : Call)

structure Turn where
  call : Call
  answer : Option (List Directive)
  book : DirectiveBook

def turns : Option ControlFile → DirectiveBook → List Event → List Turn
  | _, _, [] => []
  | _, b, .edit file :: events => turns file b events
  | file, b, .call c :: events =>
    ⟨c, (active file c.asked b).1, (active file c.asked b).2⟩ :: turns file (active file c.asked b).2 events

def firstLoad (ts : List Turn) (id : Text) : Option Call := (ts.find? fun t => t.book.Holds id).map (·.call)

/-- In every prompt a directive that was loaded first in a generation is there for its time to live, and no longer. -/
def Expires (ts : List Turn) : Prop :=
  ∀ t ∈ ts, t.call.caller = .contributor → ∀ out, t.answer = some out → ∀ d ∈ t.book.directives, ∀ ttl,
    d.timed = some ttl → ∀ first, firstLoad ts d.id = some first →
      (d ∈ out ↔ t.call.generation < first.generation + ttl)

/-- The veto policy loads no directive first, unless no prompt is built between the end of its time and
`_generation_hint`. -/
def PromptFirst (ts : List Turn) : Prop :=
  ∀ t ∈ ts, t.call.caller = .contributor → t.answer.isSome = true → ∀ d ∈ t.book.directives, ∀ ttl, d.timed = some ttl →
    ∀ first, firstLoad ts d.id = some first → first.caller = .vetoPolicy →
      (t.call.generation < generationHint + ttl ↔ t.call.generation < first.generation + ttl)

theorem Directive.not_timed_or (d : Directive) : d.timed = none ∨ ∃ ttl, d.timed = some ttl := by
  cases d.timed with
  | none => exact .inl rfl
  | some ttl => exact .inr ⟨ttl, rfl⟩

variable {generation : ℤ} {ds : List Directive} {seen : Text → Option ℤ} {file : Option ControlFile}
  {b : DirectiveBook} {id : Text} {d : Directive}

theorem visit_seen (generation : ℤ) (ds : List Directive) (seen : Text → Option ℤ) (id : Text) :
    (visit generation ds seen).2 id = (seen id).or
      (if ∃ d ∈ ds, d.id = id ∧ d.timed.isSome = true then some generation else none) := by
  induction ds generalizing seen with
  | nil => simp [visit]
  | cons d ds ih =>
    rcases d.not_timed_or with hd | ⟨ttl, hd⟩
    · simp only [visit, hd, ih, List.exists_mem_cons_iff, Option.isSome_none, Bool.false_eq_true, and_false, false_or]
    · simp only [visit, hd, ih, List.exists_mem_cons_iff, Option.isSome_some, and_true]
      by_cases hid : d.id = id
      · rw [hid, Function.update_self, if_pos (Or.inl rfl)]
        cases seen id <;> rfl
      · rw [Function.update_of_ne (Ne.symm hid)]
        simp only [hid, false_or]

theorem mem_visit : d ∈ (visit generation ds seen).1 ↔
    d ∈ ds ∧ ∀ ttl, d.timed = some ttl → generation < ((visit generation ds seen).2 d.id).getD generation + ttl := by
  induction ds generalizing seen with
  | nil => simp [visit]
  | cons e ds ih =>
    rcases e.not_timed_or with he | ⟨ttl, he⟩
    · simp only [visit, he, List.mem_cons, ih]
      constructor
      · rintro (rfl | h)
        · exact ⟨.inl rfl, fun ttl httl => by rw [he] at httl; exact nomatch httl⟩
        · exact ⟨.inr h.1, h.2⟩
      · rintro ⟨rfl | h, hlive⟩
        · exact .inl rfl
        · exact .inr ⟨h, hlive⟩
    · -- The stamp of `e` is in place before the rest is visited.
      have hstamp : (visit generation ds (Function.update seen e.id (some ((seen e.id).getD generation)))).2 e.id =
          some ((seen e.id).getD generation) := by
        rw [visit_seen, Function.update_self]
        rfl
      have hself : (∀ ttl', e.timed = some ttl' → generation < (seen e.id).getD generation + ttl') ↔
          ¬ ttl ≤ generation - (seen e.id).getD generation := by
        constructor
        · intro h
          have := h ttl he
          omega
        · intro h ttl' httl'
          rw [he] at httl'
          cases httl'
          omega
      by_cases hold : ttl ≤ generation - (seen e.id).getD generation
      · simp only [visit, he, if_pos hold, ih, List.mem_cons]
        constructor
        · exact fun h => ⟨.inr h.1, h.2⟩
        · rintro ⟨rfl | h, hlive⟩
          · rw [hstamp, Option.getD_some] at hlive
            exact absurd hold (hself.mp hlive)
          · exact ⟨h, hlive⟩
      · simp only [visit, he, if_neg hold, List.mem_cons, ih]
        constructor
        · rintro (rfl | h)
          · rw [hstamp, Option.getD_some]
            exact ⟨.inl rfl, hself.mpr hold⟩
          · exact ⟨.inr h.1, h.2⟩
        · rintro ⟨rfl | h, hlive⟩
          · exact .inl rfl
          · exact .inr ⟨h, hlive⟩

def Stamped (b : DirectiveBook) : Prop := ∀ id, b.Holds id → (b.firstSeen id).isSome = true

theorem active_stamped (hb : Stamped b) (file : Option ControlFile) (generation : ℤ) :
    Stamped (active file generation b).2 ∧ ∀ id, (active file generation b).2.firstSeen id =
      (b.firstSeen id).or (if (active file generation b).2.Holds id then some generation else none) := by
  unfold active
  have hsame : (reloadIfChanged file b).2.firstSeen = b.firstSeen ∧
      ((reloadIfChanged file b).1 = false → (reloadIfChanged file b).2.directives = b.directives) := by
    unfold reloadIfChanged
    split
    · exact ⟨rfl, fun h => nomatch h⟩
    · split
      · exact ⟨rfl, fun _ => rfl⟩
      · split
        · exact ⟨rfl, fun _ => rfl⟩
        · exact ⟨rfl, fun h => nomatch h⟩
  generalize reloadIfChanged file b = r at hsame
  obtain ⟨ok, b'⟩ := r
  obtain ⟨hseen, hdirectives⟩ := hsame
  change b'.firstSeen = b.firstSeen at hseen
  cases ok with
  | false =>
    -- What the book holds, it held before.
    have hheld : ∀ id, b'.Holds id → (b.firstSeen id).isSome = true := by
      intro id h
      refine hb id ?_
      rwa [Holds, hdirectives rfl] at h
    refine ⟨fun id h => ?_, fun id => ?_⟩
    · change (b'.firstSeen id).isSome = true
      rw [hseen]
      exact hheld id h
    · change b'.firstSeen id = _
      rw [hseen]
      by_cases h : b'.Holds id
      · obtain ⟨v, hv⟩ := Option.isSome_iff_exists.mp (hheld id h)
        rw [hv]
        rfl
      · rw [if_neg h, Option.or_none]
  | true =>
    refine ⟨fun id h => ?_, fun id => ?_⟩
    · change ((visit generation b'.directives b'.firstSeen).2 id).isSome = true
      have hheld : ∃ d ∈ b'.directives, d.id = id ∧ d.timed.isSome = true := h
      rw [visit_seen, if_pos hheld, Option.isSome_or, Option.isSome_some, Bool.or_true]
    · change (visit generation b'.directives b'.firstSeen).2 id = _
      rw [visit_seen, hseen]
      rfl

theorem mem_active {out : List Directive} (h : (active file generation b).1 = some out)
    (hd : d ∈ (active file generation b).2.directives) {ttl : ℤ} (httl : d.timed = some ttl) :
    d ∈ out ↔ generation < ((active file generation b).2.firstSeen d.id).getD generation + ttl := by
  unfold active at h hd ⊢
  generalize reloadIfChanged file b = r at h hd
  obtain ⟨ok, b'⟩ := r
  cases ok with
  | false => exact nomatch h
  | true =>
    cases h
    rw [mem_visit]
    constructor
    · exact fun hlive => hlive.2 ttl httl
    · intro hlive
      refine ⟨hd, fun ttl' httl' => ?_⟩
      rw [httl] at httl'
      cases httl'
      exact hlive

theorem firstLoad_cons (t : Turn) (ts : List Turn) (id : Text) :
    firstLoad (t :: ts) id = if t.book.Holds id then some t.call else firstLoad ts id := by
  rw [firstLoad, List.find?_cons]
  by_cases h : t.book.Holds id
  · simp [h]
  · simp [h, firstLoad]

/-- A stamp is what the first call that loaded the directive has handed to `active`. -/
theorem turns_stamp {t : Turn} {events : List Event} (hb : Stamped b) (ht : t ∈ turns file b events) (hid : t.book.Holds id) :
    t.book.firstSeen id = (b.firstSeen id).or ((firstLoad (turns file b events) id).map Call.asked) := by
  induction events generalizing file b with
  | nil => exact absurd ht List.not_mem_nil
  | cons event events ih =>
    cases event with
    | edit file' => exact ih hb ht
    | call c =>
      obtain ⟨hstamped, hseen⟩ := active_stamped hb file c.asked
      rw [turns, List.mem_cons] at ht
      rw [turns, firstLoad_cons]
      rcases ht with rfl | ht
      · rw [if_pos hid, Option.map_some]
        change (active file c.asked b).2.firstSeen id = _
        rw [hseen, if_pos hid]
      · rw [ih hstamped ht, hseen]
        by_cases hfirst : (active file c.asked b).2.Holds id
        · rw [if_pos hfirst, if_pos hfirst, Option.map_some, Option.or_assoc]
          rfl
        · rw [if_neg hfirst, if_neg hfirst, Option.or_none]

theorem mem_answer {t : Turn} {events : List Event} {out : List Directive} (ht : t ∈ turns file b events)
    (hout : t.answer = some out) (hd : d ∈ t.book.directives) {ttl : ℤ} (httl : d.timed = some ttl) :
    d ∈ out ↔ t.call.asked < (t.book.firstSeen d.id).getD t.call.asked + ttl := by
  induction events generalizing file b with
  | nil => exact absurd ht List.not_mem_nil
  | cons event events ih =>
    cases event with
    | edit file' => exact ih ht
    | call c =>
      rw [turns, List.mem_cons] at ht
      rcases ht with rfl | ht
      · exact mem_active hout hd httl
      · exact ih ht

theorem stamped_empty : Stamped {} := fun id h => by
  obtain ⟨d, hd, -⟩ := h
  exact absurd hd List.not_mem_nil

/-- Guidance expires exactly in the runs in which the veto policy loads none first, or none that is asked for later. -/
theorem expires_iff (file : Option ControlFile) (events : List Event) :
    Expires (turns file {} events) ↔ PromptFirst (turns file {} events) := by
  have hanswer : ∀ t ∈ turns file {} events, t.call.caller = .contributor → ∀ out, t.answer = some out →
      ∀ d ∈ t.book.directives, ∀ ttl, d.timed = some ttl → ∀ first, firstLoad (turns file {} events) d.id = some first →
        (d ∈ out ↔ t.call.generation < first.asked + ttl) := by
    intro t ht hcaller out hout d hd ttl httl first hfirst
    have hid : t.book.Holds d.id := ⟨d, hd, rfl, by rw [httl]; rfl⟩
    have hstamp := turns_stamp stamped_empty ht hid
    rw [hfirst] at hstamp
    have hasked : t.call.asked = t.call.generation := by rw [Call.asked, hcaller]
    rw [mem_answer ht hout hd httl, hstamp, hasked]
    rfl
  constructor
  · intro h t ht hcaller hsome d hd ttl httl first hfirst hveto
    obtain ⟨out, hout⟩ := Option.isSome_iff_exists.mp hsome
    have hasked : first.asked = generationHint := by rw [Call.asked, hveto]
    rw [← h t ht hcaller out hout d hd ttl httl first hfirst, hanswer t ht hcaller out hout d hd ttl httl first hfirst,
      hasked]
  · intro h t ht hcaller out hout d hd ttl httl first hfirst
    rw [hanswer t ht hcaller out hout d hd ttl httl first hfirst]
    cases hfirstCaller : first.caller with
    | contributor => rw [Call.asked, hfirstCaller]
    | vetoPolicy =>
      rw [← h t ht hcaller (by rw [hout]; rfl) d hd ttl httl first hfirst hfirstCaller, Call.asked, hfirstCaller]

def shortGuidance : Directive where
  id := "d1".toList
  kind := .guidance
  text := "try caching".toList
  ttlGenerations := some 1

/-- A parent is chosen before its prompt is built, so guidance for one generation is in the prompt of the sixth. -/
theorem guidance_stays : ¬ Expires (turns none {} [.edit (some ⟨1, some [shortGuidance]⟩), .call ⟨.vetoPolicy, 0⟩,
    .call ⟨.contributor, 0⟩, .call ⟨.vetoPolicy, 5⟩, .call ⟨.contributor, 5⟩]) := by
  intro h
  have hlast := h ⟨⟨.contributor, 5⟩, some [shortGuidance], _⟩
    (List.mem_cons_of_mem _ (List.mem_cons_of_mem _ (List.mem_cons_of_mem _ List.mem_cons_self))) rfl _ rfl shortGuidance
    List.mem_cons_self 1 rfl ⟨.vetoPolicy, 0⟩ rfl
  exact absurd (hlast.mp List.mem_cons_self) (by decide)

end EvoHarness.Evoplus
