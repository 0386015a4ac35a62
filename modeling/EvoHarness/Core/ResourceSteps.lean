import EvoHarness.Core.ProposalResources

/-! What the steps of a proposal keep, and the rule of its `with`. -/
namespace EvoHarness.Core.ProposalResources
open PyText Hoare Agent

def World.steps (w : World) : List ResourceStep := w.taken.map (·.step)

def ResourceStep.released? : ResourceStep → Option Text
  | .release id => some id
  | _ => none

def World.released (w : World) : List Text := w.steps.filterMap ResourceStep.released?

def World.Clean (w : World) : Prop := ∀ t ∈ w.taken, t.succeeded = true

def World.after (w : World) (step : ResourceStep) (succeeded : Bool) : World :=
  { w with taken := w.taken ++ [⟨step, succeeded⟩] }

def World.opened (w : World) (out : ProposalOutside) : Prop :=
  ⟨.openSink, true⟩ ∈ w.taken ∧ ∃ tracePath, out.sink = .managed tracePath

structure Held (out : ProposalOutside) (w : World) : Prop where
  flushed : w.steps.count .flush = w.flushAttempted.toNat
  closed : w.steps.count .close + w.sink.toNat ≤ 1
  open_or_closed : w.opened out → w.sink = true ∨ .close ∈ w.steps
  released : w.released = if w.releaseAttempted = true then w.sessionId.toList else []
  directory : w.directory = true → w.temporaryDirectory = true ∨ ⟨.removeDirectory, false⟩ ∈ w.taken

section
variable {out : ProposalOutside} {w : World} {step : ResourceStep} {b : Bool} {code : Text}

@[simp] theorem World.steps_after : (w.after step b).steps = w.steps ++ [step] := by
  simp [World.steps, World.after]

@[simp] theorem World.released_after : (w.after step b).released = w.released ++ step.released?.toList := by
  unfold World.released
  rw [World.steps_after, List.filterMap_append]
  cases h : step.released? <;> simp [h]

theorem World.Clean.after (h : w.Clean) (step : ResourceStep) : (w.after step true).Clean := by
  intro t ht
  rcases List.mem_append.mp ht with ht | ht
  · exact h t ht
  · cases List.mem_singleton.mp ht
    rfl

theorem World.opened_after (hs : step ≠ .openSink) (h : (w.after step b).opened out) : w.opened out := by
  obtain ⟨hopen, hsink⟩ := h
  rcases List.mem_append.mp hopen with hopen | hopen
  · exact ⟨hopen, hsink⟩
  · cases List.mem_singleton.mp hopen
    exact absurd rfl hs

/-- One more step, next to which the flags of `w` may have become those of `w'`. -/
theorem Held.take {w' : World} (step : ResourceStep) (b : Bool) (h : Held out w) (ht : w'.taken = w.taken)
    (hs : step ≠ .openSink)
    (hflush : w.flushAttempted.toNat + [step].count .flush = w'.flushAttempted.toNat)
    (hclose : [step].count .close + w'.sink.toNat = w.sink.toNat)
    (hreleased : w.released ++ step.released?.toList = if w'.releaseAttempted = true then w'.sessionId.toList else [])
    (hdirectory : w'.directory = true →
      w.directory = true ∧ (w.temporaryDirectory = true → w'.temporaryDirectory = true ∨ step = .removeDirectory ∧ b = false)) :
    Held out (w'.after step b) := by
  have hsteps : w'.steps = w.steps := congrArg (List.map Taken.step) ht
  have hrel : w'.released = w.released := congrArg (List.filterMap ResourceStep.released?) hsteps
  refine ⟨?_, ?_, ?_, ?_, ?_⟩
  · rw [World.steps_after, List.count_append, hsteps, h.flushed]
    exact hflush
  · have hone := h.closed
    rw [World.steps_after, List.count_append, hsteps]
    show w.steps.count .close + [step].count .close + w'.sink.toNat ≤ 1
    omega
  · intro ho
    have hopened : w.opened out := by
      obtain ⟨hopen, hsink⟩ := World.opened_after hs ho
      exact ⟨ht ▸ hopen, hsink⟩
    rw [World.steps_after, hsteps]
    rcases h.open_or_closed hopened with hsink | hc
    · cases hsink' : w'.sink with
      | true => exact .inl hsink'
      | false =>
        -- the sink is no longer open, so this step closed it
        have hcount : [step].count .close = 1 := by
          rw [hsink, hsink'] at hclose
          exact hclose
        exact .inr (List.mem_append_right _ (List.count_pos_iff.mp (by omega)))
    · exact .inr (List.mem_append_left _ hc)
  · rw [World.released_after, hrel]
    exact hreleased
  · intro hd
    obtain ⟨hold, hkept⟩ := hdirectory hd
    show _ ∨ _ ∈ w'.taken ++ [⟨step, b⟩]
    rw [ht]
    rcases h.directory hold with htemp | hfailed
    · rcases hkept htemp with htemp' | ⟨rfl, rfl⟩
      · exact .inl htemp'
      · exact .inr (by simp)
    · exact .inr (List.mem_append_left _ hfailed)

def ResourceStep.plain : ResourceStep → Bool
  | .makeDirectory | .materialize | .recordPreflight | .finalize => true
  | _ => false

theorem Held.plain (h : Held out w) (hp : step.plain = true) (b : Bool) : Held out (w.after step b) := by
  have hnone : step.released? = none := by cases step <;> first | rfl | cases hp
  refine Held.take step b h rfl ?_ ?_ ?_ ?_ fun hd => ⟨hd, .inl⟩
  · rintro rfl
    cases hp
  · cases step <;> first | rfl | cases hp
  · cases step <;> first | exact Nat.zero_add _ | cases hp
  · rw [hnone, h.released]
    exact List.append_nil _

theorem Held.flush (h : Held out w) (hf : w.flushAttempted = false) (b : Bool) :
    Held out (World.after { w with flushAttempted := true } .flush b) := by
  refine Held.take .flush b h rfl ?_ ?_ (Nat.zero_add _) ?_ fun hd => ⟨hd, .inl⟩
  · exact nofun
  · rw [hf]
    rfl
  · rw [h.released]
    exact List.append_nil _

theorem Held.release {id : Text} (h : Held out w) (hid : w.sessionId = some id) (hr : w.releaseAttempted = false)
    (b : Bool) : Held out (World.after { w with releaseAttempted := true } (.release id) b) := by
  have hnil : w.released = [] := by rw [h.released, hr]; rfl
  refine Held.take (.release id) b h rfl ?_ rfl (Nat.zero_add _) ?_ fun hd => ⟨hd, .inl⟩
  · exact nofun
  · rw [hnil]
    show [id] = w.sessionId.toList
    rw [hid]
    rfl

theorem Held.close (h : Held out w) (hs : w.sink = true) (b : Bool) :
    Held out (World.after { w with sink := false } .close b) := by
  refine Held.take .close b h rfl ?_ rfl ?_ ?_ fun hd => ⟨hd, .inl⟩
  · exact nofun
  · rw [hs]
    rfl
  · rw [h.released]
    exact List.append_nil _

theorem Held.remove (h : Held out w) (b : Bool) :
    Held out (World.after { w with temporaryDirectory := false, directory := w.directory && !b } .removeDirectory b) := by
  refine Held.take .removeDirectory b h rfl ?_ rfl (Nat.zero_add _) ?_ fun hd => ?_
  · exact nofun
  · rw [h.released]
    exact List.append_nil _
  · have hboth : w.directory = true ∧ b = false := by simpa using hd
    exact ⟨hboth.1, fun _ => .inr ⟨rfl, hboth.2⟩⟩

end

/-- The accounts of a proposal: its usage, its runs and its session. The steps leave them as they are. -/
abbrev Accounts : Type := ProposalUsage → ℕ → Option Text → Prop

/-- The flags are right, the accounts are as `A` says, and if `c`, then no step failed. -/
structure Kept (out : ProposalOutside) (A : Accounts) (c : Prop) (w : World) : Prop where
  held : Held out w
  accounts : A w.usage w.runs w.sessionId
  clean : c → w.Clean

structure Left (out : ProposalOutside) (A : Accounts) (c : Prop) (w : World) : Prop extends Kept out A c w where
  released : w.sessionId.isSome = true → w.releaseAttempted = true
  sink : w.sink = false
  temporaryDirectory : w.temporaryDirectory = false

section
variable {out : ProposalOutside} {A : Accounts} {c : Prop} {P R : World → Prop} {Q : World → Prop}

theorem Kept.weaken {c' : Prop} {w : World} (h : Kept out A c w) (hc : c' → c) : Kept out A c' w :=
  ⟨h.held, h.accounts, fun h' => h.clean (hc h')⟩

theorem Kept.setWorkdir {w : World} (h : Kept out A c w) (b : Bool) : Kept out A c { w with workdir := b } :=
  ⟨⟨h.held.flushed, h.held.closed, h.held.open_or_closed, h.held.released, h.held.directory⟩, h.accounts, h.clean⟩

theorem take_run (step : ResourceStep) (code : Text) (w : World) : take out step code w =
    (if out.succeeds w.taken step = true then .ok () else .error code, w.after step (out.succeeds w.taken step)) := by
  unfold take
  rw [Prog.bind_ok (Prog.call_run _)]
  cases h : out.succeeds w.taken step <;> rfl

theorem take_spec {step : ResourceStep} {code : Text}
    (hok : ∀ w, P w → out.succeeds w.taken step = true → Q (w.after step true))
    (hfail : ∀ w, P w → out.succeeds w.taken step = false → R (w.after step false)) :
    Triple P (take out step code) (fun _ => Q) R := by
  intro w hw
  rw [take_run]
  cases h : out.succeeds w.taken step with
  | true => exact hok w hw h
  | false => exact hfail w hw h

theorem take_plain {step : ResourceStep} {code : Text} (hp : step.plain = true) :
    Triple (Kept out A c) (take out step code) (fun _ => Kept out A c) (Kept out A False) :=
  take_spec (fun _ h _ => ⟨h.held.plain hp true, h.accounts, fun hc => (h.clean hc).after step⟩)
    fun _ h _ => ⟨h.held.plain hp false, h.accounts, nofun⟩

theorem finalize_spec : Triple (Kept out A c) (finalize out) (fun _ => Kept out A c) (Kept out A False) := by
  refine .read fun v h => ?_
  by_cases hs : v.sink = false
  · rw [if_pos hs]
    exact .raise fun _ hw => hw ▸ h.weaken nofun
  · rw [if_neg hs]
    exact (take_plain rfl).weaken fun _ hw => hw ▸ h

theorem flushSink_spec : Triple (Kept out A c) (flushSink out) (fun _ => Kept out A c) (Kept out A False) := by
  refine .read fun v h => ?_
  by_cases hs : v.sink = false ∨ v.flushAttempted = true
  · rw [if_pos hs]
    exact .pure fun _ hw => hw ▸ h
  · rw [if_neg hs]
    have hf : v.flushAttempted = false := by simpa using (not_or.mp hs).2
    refine .bind (Q := fun _ w => w = { v with flushAttempted := true }) (.modify fun _ hw => hw ▸ rfl) fun _ => ?_
    refine take_spec (fun w hw _ => ?_) fun w hw _ => ?_
    · subst hw
      exact ⟨h.held.flush hf true, h.accounts, fun hc => (h.clean hc).after .flush⟩
    · subst hw
      exact ⟨h.held.flush hf false, h.accounts, nofun⟩

def Released (w : World) : Prop := w.sessionId.isSome = true → w.releaseAttempted = true

theorem releaseSession_spec : Triple (Kept out A c) (releaseSession out)
    (fun _ w => Kept out A c w ∧ Released w) fun w => Kept out A False w ∧ Released w := by
  refine .read fun v h => ?_
  cases hid : v.sessionId with
  | none => exact .pure fun _ hw => hw ▸ ⟨h, fun hsome => absurd hsome (by simp [hid])⟩
  | some id =>
    cases hr : v.releaseAttempted with
    | true => exact .pure fun _ hw => hw ▸ ⟨h, fun _ => hr⟩
    | false =>
      refine .bind (Q := fun _ w => w = { v with releaseAttempted := true }) (.modify fun _ hw => hw ▸ rfl) fun _ => ?_
      refine take_spec (fun w hw _ => ?_) fun w hw _ => ?_
      · subst hw
        exact ⟨⟨h.held.release hid hr true, h.accounts, fun hc => (h.clean hc).after (.release id)⟩, fun _ => rfl⟩
      · subst hw
        exact ⟨⟨h.held.release hid hr false, h.accounts, nofun⟩, fun _ => rfl⟩

section
variable (I J : Prop → World → Prop) (c)

/-- `I` and `J` may speak of whether a step failed so far; the first error tells. -/
theorem keepingFirst_spec {m : Step Unit} {first : Option Text} (hm : ∀ c, Triple (I c) m (fun _ => J c) (J False)) :
    Triple (I (first = none ∧ c)) (keepingFirst first m) (fun e => J (e = none ∧ c)) fun _ => False := by
  refine .attempt_bind (hm _) (fun _ => .pure fun _ => id) fun code => .pure fun w h => ?_
  have herror : ((first <|> some code) = none ∧ c) = False := by cases first <;> simp
  rw [herror]
  exact h

end

theorem onlyIf_spec {cond : World → Bool} {m : Step Unit} {J : Unit → World → Prop}
    (hm : Triple (fun w => P w ∧ cond w = true) m J R) (hskip : ∀ w, P w → cond w = false → J () w) :
    Triple P (onlyIf cond m) J R := by
  refine .read fun v h => ?_
  cases hc : cond v with
  | true => exact hm.weaken fun _ hw => hw ▸ ⟨h, hc⟩
  | false => exact .pure fun _ hw => hw ▸ hskip v h hc

theorem closeSink_spec : Triple (fun w => (Kept out A c w ∧ Released w) ∧ w.sink = true) (closeSink out)
    (fun _ w => Kept out A c w ∧ Released w ∧ w.sink = false)
    fun w => Kept out A False w ∧ Released w ∧ w.sink = false := by
  intro w h
  obtain ⟨⟨hk, hr⟩, hs⟩ := h
  have hrun : closeSink out w = take out .close "sink-close-error".toList { w with sink := false } :=
    Prog.bind_ok (Prog.modify_run _)
  rw [hrun, take_run]
  cases out.succeeds w.taken .close with
  | true => exact ⟨⟨hk.held.close hs true, hk.accounts, fun hc => (hk.clean hc).after .close⟩, hr, rfl⟩
  | false => exact ⟨⟨hk.held.close hs false, hk.accounts, nofun⟩, hr, rfl⟩

theorem removeDirectory_run (w : World) : removeDirectory out w =
    (if out.succeeds w.taken .removeDirectory = true then .ok () else .error "workspace-cleanup-error".toList,
      World.after { w with
        temporaryDirectory := false
        directory := w.directory && !out.succeeds w.taken .removeDirectory }
        .removeDirectory (out.succeeds w.taken .removeDirectory)) := by
  show Prog.bind (take out _ _) _ _ = _
  unfold Prog.bind
  rw [take_run]
  cases out.succeeds w.taken .removeDirectory <;> simp [World.after]

theorem removeDirectory_spec :
    Triple (fun w => (Kept out A c w ∧ Released w ∧ w.sink = false) ∧ w.temporaryDirectory = true) (removeDirectory out)
      (fun _ => Left out A c) (Left out A False) := by
  intro w h
  obtain ⟨⟨hk, hr, hs⟩, ht⟩ := h
  rw [removeDirectory_run]
  cases out.succeeds w.taken .removeDirectory with
  | true => exact ⟨⟨hk.held.remove true, hk.accounts, fun hc => World.Clean.after (hk.clean hc) _⟩, hr, hs, rfl⟩
  | false => exact ⟨⟨hk.held.remove false, hk.accounts, nofun⟩, hr, hs, rfl⟩

theorem cleanup_spec : Triple (Kept out A c) (cleanup out) (fun e => Left out A (e = none ∧ c)) fun _ => False := by
  have hflush (c : Prop) : Triple (Kept out A c)
      (onlyIf (fun w => w.sink && !w.flushAttempted) (flushSink out)) (fun _ => Kept out A c) (Kept out A False) :=
    onlyIf_spec (flushSink_spec.weaken fun _ h => h.1) fun _ h _ => h
  have hrelease (c : Prop) : Triple (Kept out A c)
      (onlyIf (fun w => w.sessionId.isSome && !w.releaseAttempted) (releaseSession out))
      (fun _ w => Kept out A c w ∧ Released w) fun w => Kept out A False w ∧ Released w := by
    refine onlyIf_spec (releaseSession_spec.weaken fun _ h => h.1) fun w h hskip => ⟨h, fun hsome => ?_⟩
    simpa [hsome] using hskip
  have hclose (c : Prop) : Triple (fun w => Kept out A c w ∧ Released w) (onlyIf (·.sink) (closeSink out))
      (fun _ w => Kept out A c w ∧ Released w ∧ w.sink = false)
      fun w => Kept out A False w ∧ Released w ∧ w.sink = false :=
    onlyIf_spec closeSink_spec fun _ h hskip => ⟨h.1, h.2, hskip⟩
  have hremove (c : Prop) : Triple (fun w => Kept out A c w ∧ Released w ∧ w.sink = false)
      (onlyIf (·.temporaryDirectory) (removeDirectory out)) (fun _ => Left out A c) (Left out A False) :=
    onlyIf_spec removeDirectory_spec fun _ h hskip => ⟨h.1, h.2.1, h.2.2, hskip⟩
  refine .bind ((keepingFirst_spec c (Kept out A) _ hflush).weaken fun _ h => h.weaken (·.2)) fun flushed => ?_
  refine .bind (keepingFirst_spec c _ (fun c w => Kept out A c w ∧ Released w) hrelease) fun released => ?_
  refine .bind (keepingFirst_spec c (fun c w => Kept out A c w ∧ Released w)
    (fun c w => Kept out A c w ∧ Released w ∧ w.sink = false) hclose) fun closed => ?_
  refine .bind (.modify (Q := fun _ w => Kept out A (closed = none ∧ c) w ∧ Released w ∧ w.sink = false) fun _ h => ?_)
    fun _ => keepingFirst_spec c (fun c w => Kept out A c w ∧ Released w ∧ w.sink = false) (Left out A) hremove
  exact ⟨h.1.setWorkdir false, h.2.1, h.2.2⟩

def start (out : ProposalOutside) : World where
  sink := true
  workdir := true
  tracePath := match out.sink with
    | .managed tracePath => tracePath
    | .unmanaged => none
  temporaryDirectory := true
  taken := [⟨.openSink, true⟩, ⟨.makeDirectory, true⟩, ⟨.materialize, true⟩]
  directory := true

structure Enters (out : ProposalOutside) : Prop where
  opens : out.succeeds [] .openSink = true
  sink : ∃ tracePath, out.sink = .managed tracePath ∧ badTracePath tracePath = false
  makes : out.succeeds [⟨.openSink, true⟩] .makeDirectory = true
  materializes : out.succeeds [⟨.openSink, true⟩, ⟨.makeDirectory, true⟩] .materialize = true
  destination : out.returnsDestination = true
  isDirectory : out.isDirectory = true

def Unused : Accounts := fun u runs sessionId => u = {} ∧ runs = 0 ∧ sessionId = none

def opening (tracePath : Option Text) : World where
  sink := true
  tracePath := tracePath
  taken := [⟨.openSink, true⟩]

theorem opening_held (tracePath : Option Text) : Held out (opening tracePath) :=
  ⟨rfl, le_refl 1, fun _ => .inl rfl, rfl, nofun⟩

theorem openSink_spec : Triple (fun w => w = {}) (openSink out)
    (fun _ w => ∃ tracePath, (out.sink = .managed tracePath ∧ badTracePath tracePath = false ∧
      out.succeeds [] .openSink = true) ∧ w = opening tracePath)
    fun w => ¬ Enters out ∧ Left out Unused False w := by
  refine .bind (Q := fun _ w => out.succeeds [] .openSink = true ∧ w = World.after {} .openSink true)
    (take_spec (fun w hw h => ?_) fun w hw h => ?_) fun _ => ?_
  · subst hw
    exact ⟨h, rfl⟩
  · subst hw
    refine ⟨fun he => ?_, ⟨⟨rfl, Nat.zero_le 1, fun ho => ?_, rfl, nofun⟩, ⟨rfl, rfl, rfl⟩, nofun⟩, nofun, rfl, rfl⟩
    · exact absurd (he.opens.symm.trans h) (by simp)
    · exact absurd ho.1 (by decide)
  refine Triple.assume fun hopen => ?_
  cases hs : out.sink with
  | unmanaged =>
    refine .raise fun w hw => ?_
    subst hw
    refine ⟨fun he => ?_, ⟨⟨rfl, Nat.zero_le 1, fun ho => ?_, rfl, nofun⟩, ⟨rfl, rfl, rfl⟩, nofun⟩, nofun, rfl, rfl⟩
    · obtain ⟨_, hm, _⟩ := he.sink
      cases hs.symm.trans hm
    · obtain ⟨_, hm⟩ := ho.2
      cases hs.symm.trans hm
  | managed tracePath =>
    cases hbad : badTracePath tracePath with
    | false =>
      dsimp only
      rw [if_neg (by simp [hbad])]
      refine .modify fun w hw => ⟨tracePath, ⟨rfl, hbad, hopen⟩, ?_⟩
      subst hw
      rfl
    | true =>
      have hclosed (b : Bool) : ¬ Enters out ∧ Left out Unused False
          (World.after (World.after {} .openSink true) .close b) := by
        refine ⟨fun he => ?_, ⟨⟨rfl, le_refl 1, fun _ => .inr (by simp), rfl, nofun⟩, ⟨rfl, rfl, rfl⟩, nofun⟩, nofun, rfl, rfl⟩
        obtain ⟨t, hm, hgood⟩ := he.sink
        cases hs.symm.trans hm
        exact absurd (hbad.symm.trans hgood) (by simp)
      dsimp only
      rw [if_pos hbad]
      refine .attempt_bind (Q := fun _ w => ¬ Enters out ∧ Left out Unused False w)
        (take_spec (fun w hw _ => ?_) fun w hw _ => ?_) (fun _ => .raise fun _ => id) fun _ => .raise fun _ => id
      · subst hw
        exact hclosed true
      · subst hw
        exact hclosed false

theorem opening_make (tracePath : Option Text) (b : Bool) :
    Kept out Unused False ((opening tracePath).after .makeDirectory b) :=
  ⟨(opening_held tracePath).plain rfl b, ⟨rfl, rfl, rfl⟩, nofun⟩

def making (tracePath : Option Text) : World :=
  { (opening tracePath).after .makeDirectory true with temporaryDirectory := true, directory := true }

theorem making_held (tracePath : Option Text) : Held out (making tracePath) :=
  ⟨rfl, le_refl 1, fun _ => .inl rfl, rfl, fun _ => .inl rfl⟩

theorem materializeWorkspace_spec {tracePath : Option Text} (hopen : out.succeeds [] .openSink = true)
    (hs : out.sink = .managed tracePath) (hgood : badTracePath tracePath = false) :
    Triple (fun w => w = opening tracePath) (materializeWorkspace out)
      (fun _ w => Enters out ∧ w = start out) fun w => ¬ Enters out ∧ Kept out Unused False w := by
  refine .bind (Q := fun _ w => out.succeeds [⟨.openSink, true⟩] .makeDirectory = true ∧
    w = (opening tracePath).after .makeDirectory true) (take_spec (fun w hw h => ?_) fun w hw h => ?_) fun _ => ?_
  · subst hw
    exact ⟨h, rfl⟩
  · subst hw
    exact ⟨fun he => absurd (he.makes.symm.trans h) (by simp), opening_make tracePath false⟩
  refine Triple.assume fun hmake => ?_
  refine .bind (Q := fun _ w => w = making tracePath) (.modify fun w hw => hw ▸ rfl) fun _ => ?_
  refine .bind (Q := fun _ w => out.succeeds [⟨.openSink, true⟩, ⟨.makeDirectory, true⟩] .materialize = true ∧
    w = (making tracePath).after .materialize true) (take_spec (fun w hw h => ?_) fun w hw h => ?_) fun _ => ?_
  · subst hw
    exact ⟨h, rfl⟩
  · subst hw
    exact ⟨fun he => absurd (he.materializes.symm.trans h) (by simp), (making_held tracePath).plain rfl false, ⟨rfl, rfl, rfl⟩, nofun⟩
  refine Triple.assume fun hmaterialize => ?_
  have hkept : Kept out Unused False ((making tracePath).after .materialize true) :=
    ⟨(making_held tracePath).plain rfl true, ⟨rfl, rfl, rfl⟩, nofun⟩
  by_cases hdest : out.returnsDestination = false
  · rw [if_pos hdest]
    exact .raise fun w hw => hw ▸ ⟨fun he => absurd (he.destination.symm.trans hdest) (by simp), hkept⟩
  rw [if_neg hdest]
  by_cases hdir : out.isDirectory = false
  · rw [if_pos hdir]
    exact .raise fun w hw => hw ▸ ⟨fun he => absurd (he.isDirectory.symm.trans hdir) (by simp), hkept⟩
  rw [if_neg hdir]
  refine .modify fun w hw => ⟨⟨hopen, ⟨tracePath, hs, hgood⟩, hmake, hmaterialize, by simpa using hdest, by simpa using hdir⟩, ?_⟩
  subst hw
  unfold start
  rw [hs]
  rfl

theorem enter_spec : Triple (fun w => w = {}) (enter out) (fun _ w => Enters out ∧ w = start out)
    fun w => ¬ Enters out ∧ Left out Unused False w := by
  refine .bind openSink_spec fun _ => .each fun tracePath => .assume fun ⟨hs, hgood, hopen⟩ => ?_
  refine .attempt_bind (materializeWorkspace_spec hopen hs hgood) (fun _ => .pure fun _ => id) fun code => ?_
  refine Triple.assume fun hnot => .bind (cleanup_spec.raising _ nofun) fun e => .raise fun w h => ⟨hnot, ?_⟩
  exact ⟨h.toKept.weaken nofun, h.released, h.sink, h.temporaryDirectory⟩

/-- The rule of the `with`: what its body keeps is cleaned up, whichever way it ends. -/
theorem withResources_spec {α : Type} {body : Session α} {A : α → Accounts} {B : Accounts} {c : α → Prop}
    (hbody : Enters out → Triple (fun w => w = start out) body (fun a => Kept out (A a) (c a)) (Kept out B False))
    (hreturned : ∀ a u n s, A a u n s → B u n s) (hunused : ¬ Enters out → ∀ u n s, Unused u n s → B u n s) :
    Triple (fun w => w = {}) (withResources out body) (fun a => Left out (A a) (c a)) (Left out B False) := by
  refine .bind (Triple.mapError (enter_spec.raising (Left out B False) fun w h => ?_)) fun _ => Triple.assume fun henter => ?_
  · exact ⟨⟨h.2.held, hunused h.1 _ _ _ h.2.accounts, nofun⟩, h.2.released, h.2.sink, h.2.temporaryDirectory⟩
  have hclean {A : Accounts} {c : Prop} : Triple (Kept out A c) (owned (cleanup out))
      (fun e => Left out A (e = none ∧ c)) (Left out B False) :=
    Triple.mapError (cleanup_spec.raising _ nofun)
  refine .attempt_bind (hbody henter) (fun a => .bind hclean fun e => ?_) fun error => .bind hclean fun e => ?_
  · cases e with
    | none => exact .pure fun w h => ⟨h.toKept.weaken fun hc => ⟨rfl, hc⟩, h.released, h.sink, h.temporaryDirectory⟩
    | some code =>
      exact .raise fun w h => ⟨⟨h.held, hreturned a _ _ _ h.accounts, nofun⟩, h.released, h.sink, h.temporaryDirectory⟩
  · exact .raise fun w h => ⟨h.toKept.weaken nofun, h.released, h.sink, h.temporaryDirectory⟩

end

end EvoHarness.Core.ProposalResources
