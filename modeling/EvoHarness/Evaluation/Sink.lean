import EvoHarness.Evaluation.RoundTrip
import EvoHarness.Core.Checkpoint
import EvoHarness.Library.Runs

/-! The durable evidence file: what appends, failed writes and crashes leave in it, and what is
read when it is opened again. -/
namespace EvoHarness.Evaluation
open PyText PyBytes Json

variable {fm : EvidenceFormats}

abbrev Records := List (Text × Text)

inductive SinkFault where
  | invalidLine (number : ℕ)
  | conflicting (id : Text)
  | writeFailed
deriving DecidableEq

def readLine (fm : EvidenceFormats) (line : Bytes) : Option (EvidenceEnvelope fm) := do
  let text ← decode line
  let payload ← loads text
  (decodeEvidence fm payload).toOption

def remember (records : Records) (e : EvidenceEnvelope fm) : Except SinkFault Records :=
  match records.find? fun r => r.1 = e.evidenceId fm with
  | some r => if r.2 ≠ e.line then .error (.conflicting (e.evidenceId fm)) else .ok records
  | none => .ok (records ++ [(e.evidenceId fm, e.line)])

def rememberLines (fm : EvidenceFormats) : Records → ℕ → List Bytes → Except SinkFault Records
  | records, _, [] => .ok records
  | records, n, line :: rest =>
    if PyBytes.isBlank line then rememberLines fm records (n + 1) rest
    else
      match readLine fm line with
      | none => .error (.invalidLine n)
      | some e =>
        match remember records e with
        | .error _ => .error (.invalidLine n)
        | .ok records => rememberLines fm records (n + 1) rest

/-- `_load_existing`: the file it leaves, and the records. -/
def loadExisting (fm : EvidenceFormats) (raw : Bytes) : Except SinkFault (Bytes × Records) :=
  if Ended raw then (rememberLines fm [] 1 (PyBytes.splitlines raw)).map fun records => (raw, records)
  else
    match readLine fm (raw.rtakeWhile (· ≠ 10)) with
    | none =>
      let raw := raw.rdropWhile (· ≠ 10)
      (rememberLines fm [] 1 (PyBytes.splitlines raw)).map fun records => (raw, records)
    | some e =>
      let raw := raw ++ [10]
      (rememberLines fm [(e.evidenceId fm, e.line)] 1 (PyBytes.splitlines raw)).map fun records => (raw, records)

def readRunEvidence (fm : EvidenceFormats) (file : Bytes) : Option (List (EvidenceEnvelope fm)) := do
  let text ← decode file
  ((PyText.splitlines (universalNewlines text)).filter fun line => strip line ≠ []).mapM fun line => do
    let payload ← loads line
    (decodeEvidence fm payload).toOption

inductive Write where
  | done
  | failed (k : ℕ)
  | died (k : ℕ)

inductive SinkEvent (fm : EvidenceFormats) where
  | opened
  | append (offered : EvidenceEnvelope fm ⊕ Value) (write : Write)
  | died

/-- `live` are the records of the process that has the file open. `returned` are the envelopes
whose append returned, and `cut` are those whose write did not end well. -/
structure EvidenceFile (fm : EvidenceFormats) where
  file : Bytes := []
  live : Option Records := none
  returned : List (EvidenceEnvelope fm) := []
  cut : List (EvidenceEnvelope fm) := []

def EvidenceEnvelope.bytes (e : EvidenceEnvelope fm) : Bytes := encode (e.line ++ ['\n'])

def normalized : EvidenceEnvelope fm ⊕ Value → Option (EvidenceEnvelope fm)
  | .inl e => some e
  | .inr payload => (decodeEvidence fm payload).toOption

/-- The section under the lock of `append`, which serves one thread at a time. -/
def EvidenceFile.append (s : EvidenceFile fm) (records : Records) (e : EvidenceEnvelope fm) (w : Write) :
    EvidenceFile fm :=
  match records.find? fun r => r.1 = e.evidenceId fm with
  | some r => if r.2 ≠ e.line then s else { s with returned := s.returned ++ [e] }
  | none =>
    match w with
    | .done => {
        s with
        file := s.file ++ e.bytes
        live := some (records ++ [(e.evidenceId fm, e.line)])
        returned := s.returned ++ [e] }
    | .failed k => { s with file := s.file ++ e.bytes.take k, cut := s.cut ++ [e] }
    | .died k => { s with file := s.file ++ e.bytes.take k, cut := s.cut ++ [e], live := none }

def sinkStep (s : EvidenceFile fm) : SinkEvent fm → Option (EvidenceFile fm)
  | .opened =>
    match loadExisting fm s.file with
    | .ok (file, records) => some { s with file, live := some records }
    | .error _ => some { s with live := none }
  | .append offered w =>
    match s.live with
    | none => none
    | some records =>
      match normalized offered with
      | none => some s
      | some e => some (s.append records e w)
  | .died => some { s with live := none }

/-- The file opens, its records are the envelopes whose append returned, and maybe ones that were
cut, each once, and the other reader returns every one of them. -/
def Survives (s : EvidenceFile fm) : Prop :=
  ∃ file records, loadExisting fm s.file = .ok (file, records) ∧ (records.map (·.1)).Nodup ∧
    (∀ r ∈ records, ∃ e, (e ∈ s.returned ∨ e ∈ s.cut) ∧ r = (e.evidenceId fm, e.line)) ∧
    (∀ e ∈ s.returned, (e.evidenceId fm, e.line) ∈ records) ∧
    ∃ es, readRunEvidence fm file = some es ∧ ∀ r ∈ records, ∃ e ∈ es, r = (e.evidenceId fm, e.line)

/-- No string of the envelope has a line boundary that the writer does not escape. -/
def EvidenceEnvelope.Plain (e : EvidenceEnvelope fm) : Prop :=
  ∀ t ∈ strings (.object e.toJson), ∀ c ∈ t, ¬ (c.toNat = 133 ∨ c.toNat = 8232 ∨ c.toNat = 8233)

/-- A line is written only behind whole lines, is one line for both readers, and has not the hash
of another envelope. -/
def SafeWrite (s : EvidenceFile fm) : SinkEvent fm → Prop
  | .append offered _ => ∀ records e, s.live = some records → normalized offered = some e →
    (records.find? fun r => r.1 = e.evidenceId fm) = none →
    Ended s.file ∧ e.Plain ∧
      ∀ line ∈ PyBytes.splitlines s.file, ∀ e', readLine fm line = some e' → e'.evidenceId fm = e.evidenceId fm → e' = e
  | _ => True

theorem line_head (e : EvidenceEnvelope fm) : ∃ t, e.line = '\x7b' :: t := by
  rw [line_eq]
  exact write_object (sorted_object (object_toJson e))

theorem bytes_eq (e : EvidenceEnvelope fm) : e.bytes = encode e.line ++ [10] := by
  rw [EvidenceEnvelope.bytes, encode_append, encode_newline]

theorem line_visible {e : EvidenceEnvelope fm} {c : Char} (hc : c ∈ e.line) : 32 ≤ c.toNat := by
  rw [line_eq] at hc
  exact write_visible (by simp) _ c hc

theorem line_unbroken (e : EvidenceEnvelope fm) : Unbroken (encode e.line) := by
  intro b hb
  constructor
  · intro hten
    obtain ⟨c, hc, hnat⟩ := mem_encode (by rw [hten]; decide) hb
    have hvisible := line_visible hc
    rw [hnat, hten] at hvisible
    exact absurd hvisible (by decide)
  · intro hthirteen
    obtain ⟨c, hc, hnat⟩ := mem_encode (by rw [hthirteen]; decide) hb
    have hvisible := line_visible hc
    rw [hnat, hthirteen] at hvisible
    exact absurd hvisible (by decide)

theorem line_not_blank (e : EvidenceEnvelope fm) : PyBytes.isBlank (encode e.line) = false := by
  obtain ⟨t, ht⟩ := line_head e
  rw [ht, encode, List.flatMap_cons, PyBytes.isBlank, List.all_append]
  exact Bool.and_eq_false_imp.mpr fun h => absurd h (by decide)

theorem readLine_line (e : EvidenceEnvelope fm) : readLine fm (encode e.line) = some e := by
  rw [readLine, decode_encode]
  show (loads e.line).bind _ = _
  rw [loads_line]
  show (decodeEvidence fm _).toOption = _
  rw [decodeEvidence_toJson]
  rfl

theorem line_injective {e e' : EvidenceEnvelope fm} (h : e.line = e'.line) : e = e' := by
  have hread := readLine_line e
  rw [h, readLine_line] at hread
  exact (Option.some.inj hread).symm

theorem readLine_cut (e : EvidenceEnvelope fm) {tail rest : Bytes} (h : tail ++ rest = encode e.line)
    (hrest : rest ≠ []) : readLine fm tail = none := by
  rw [readLine]
  cases htext : decode tail with
  | none => rfl
  | some text =>
    rw [← encode_of_decode htext] at h
    obtain ⟨more, hmore⟩ := prefix_of_encode h
    have hne : more ≠ [] := by
      intro hnil
      rw [hnil, List.append_nil] at hmore
      rw [hmore] at h
      exact hrest (List.append_right_eq_self.mp h)
    show (loads text).bind _ = _
    rw [loads_line_cut e hmore hne]
    rfl

structure RecordsOf (es : List (EvidenceEnvelope fm)) (records : Records) : Prop where
  nodup : (records.map (·.1)).Nodup
  known : ∀ r ∈ records, ∃ e ∈ es, r = (e.evidenceId fm, e.line)

def Agree (es : List (EvidenceEnvelope fm)) : Prop :=
  ∀ e ∈ es, ∀ e' ∈ es, e.evidenceId fm = e'.evidenceId fm → e = e'

variable {es : List (EvidenceEnvelope fm)} {records : Records} {e : EvidenceEnvelope fm}

theorem RecordsOf.mono {es' : List (EvidenceEnvelope fm)} (h : RecordsOf es records) (hsub : es ⊆ es') :
    RecordsOf es' records := by
  refine ⟨h.nodup, fun r hr => ?_⟩
  obtain ⟨e, he, hre⟩ := h.known r hr
  exact ⟨e, hsub he, hre⟩

theorem RecordsOf.found (h : RecordsOf es records) (hagree : Agree es) (he : e ∈ es) {r : Text × Text}
    (hr : records.find? (fun r => r.1 = e.evidenceId fm) = some r) : r = (e.evidenceId fm, e.line) := by
  have hid : r.1 = e.evidenceId fm := of_decide_eq_true
    (List.find?_some (p := fun r : Text × Text => decide (r.1 = e.evidenceId fm)) hr)
  obtain ⟨e', he', hre'⟩ := h.known r (List.mem_of_find?_eq_some hr)
  rw [hre'] at hid ⊢
  rw [hagree e' he' e he hid]

theorem RecordsOf.snoc (h : RecordsOf es records) (he : e ∈ es)
    (hnone : records.find? (fun r => r.1 = e.evidenceId fm) = none) :
    RecordsOf es (records ++ [(e.evidenceId fm, e.line)]) := by
  constructor
  · rw [List.map_append, List.map_singleton, List.nodup_append]
    refine ⟨h.nodup, List.nodup_singleton _, ?_⟩
    intro k hk k' hk' heq
    obtain ⟨r, hr, rfl⟩ := List.mem_map.mp hk
    rw [List.mem_singleton.mp hk'] at heq
    exact List.find?_eq_none.mp hnone r hr (decide_eq_true heq)
  · intro r hr
    cases List.mem_append.mp hr with
    | inl hr => exact h.known r hr
    | inr hr => exact ⟨e, he, List.mem_singleton.mp hr⟩

theorem RecordsOf.remember (h : RecordsOf es records) (hagree : Agree es) (he : e ∈ es) :
    ∃ records', remember records e = .ok records' ∧ RecordsOf es records' ∧ records ⊆ records' ∧
      (e.evidenceId fm, e.line) ∈ records' := by
  unfold Evaluation.remember
  cases hfind : records.find? fun r => r.1 = e.evidenceId fm with
  | none =>
    exact ⟨_, rfl, h.snoc he hfind, List.subset_append_left _ _,
      List.mem_append_right _ (List.mem_singleton.mpr rfl)⟩
  | some r =>
    have hr := h.found hagree he hfind
    refine ⟨records, ?_, h, List.Subset.refl _, hr ▸ List.mem_of_find?_eq_some hfind⟩
    rw [hr]
    exact if_neg fun hne => hne rfl

theorem RecordsOf.lines (hagree : Agree es) {stored : List (EvidenceEnvelope fm)} (hstored : stored ⊆ es) :
    ∀ {records : Records} (n : ℕ), RecordsOf es records →
      ∃ records', rememberLines fm records n (stored.map fun e => encode e.line) = .ok records' ∧
        RecordsOf es records' ∧ records ⊆ records' ∧ ∀ e ∈ stored, (e.evidenceId fm, e.line) ∈ records' := by
  induction stored with
  | nil =>
    intro records n h
    exact ⟨records, rfl, h, List.Subset.refl _, fun _ he => nomatch he⟩
  | cons e stored ih =>
    intro records n h
    obtain ⟨mid, hmid, hof, hsub, hmem⟩ := h.remember hagree (hstored List.mem_cons_self)
    obtain ⟨last, hlast, hof', hsub', hall⟩ := ih (fun e he => hstored (List.mem_cons_of_mem _ he)) (n + 1) hof
    refine ⟨last, ?_, hof', List.Subset.trans hsub hsub', List.forall_mem_cons.mpr ⟨hsub' hmem, hall⟩⟩
    rw [List.map_cons, rememberLines, line_not_blank, if_neg Bool.false_ne_true, readLine_line]
    simp only [hmid]
    exact hlast

/-- The lines of `stored`, and a part of one more, which the write of `torn` left. -/
structure Holds (s : EvidenceFile fm) (stored : List (EvidenceEnvelope fm)) (tail : Bytes) : Prop where
  file : s.file = stored.flatMap EvidenceEnvelope.bytes ++ tail
  plain : ∀ e ∈ stored, e.Plain
  agree : Agree stored
  known : ∀ e ∈ stored, e ∈ s.returned ∨ e ∈ s.cut
  kept : s.returned ⊆ stored
  torn : tail = [] ∨ ∃ e ∈ s.cut, ∃ rest, rest ≠ [] ∧ tail ++ rest = e.bytes ∧ e.Plain ∧
    ∀ e' ∈ stored, e'.evidenceId fm = e.evidenceId fm → e' = e
  live : ∀ records ∈ s.live, RecordsOf stored records

variable {s : EvidenceFile fm} {stored : List (EvidenceEnvelope fm)} {tail : Bytes}

theorem bytes_lines (stored : List (EvidenceEnvelope fm)) : stored.flatMap EvidenceEnvelope.bytes =
    (stored.map fun e => encode e.line).flatMap fun line => line ++ [10] := by
  induction stored with
  | nil => rfl
  | cons e stored ih => rw [List.flatMap_cons, ih, List.map_cons, List.flatMap_cons, bytes_eq]

theorem ended_stored (stored : List (EvidenceEnvelope fm)) : Ended (stored.flatMap EvidenceEnvelope.bytes) := by
  rw [bytes_lines]
  exact ended_lines _

theorem splitlines_stored (stored : List (EvidenceEnvelope fm)) :
    PyBytes.splitlines (stored.flatMap EvidenceEnvelope.bytes) = stored.map fun e => encode e.line := by
  rw [bytes_lines]
  apply splitlines_lines
  intro line hline
  obtain ⟨e, _, rfl⟩ := List.mem_map.mp hline
  exact line_unbroken e

theorem part_of_line {rest : Bytes} (h : tail ++ rest = e.bytes) (hrest : rest ≠ []) :
    tail = encode e.line ∨ ∃ more, more ≠ [] ∧ tail ++ more = encode e.line := by
  rw [bytes_eq] at h
  cases rest using List.reverseRec with
  | nil => exact absurd rfl hrest
  | append_singleton more c =>
    rw [← List.append_assoc] at h
    have hcut : tail ++ more = encode e.line := (List.append_inj' h rfl).1
    by_cases hmore : more = []
    · rw [hmore, List.append_nil] at hcut
      exact .inl hcut
    · exact .inr ⟨more, hmore, hcut⟩

theorem part_unbroken {rest : Bytes} (h : tail ++ rest = e.bytes) (hrest : rest ≠ []) : Unbroken tail := by
  intro c hc
  apply line_unbroken e c
  cases part_of_line h hrest with
  | inl htail => exact htail ▸ hc
  | inr hpart =>
    obtain ⟨more, _, hmore⟩ := hpart
    exact hmore ▸ List.mem_append_left _ hc

theorem agree_snoc (h : Agree stored) (he : ∀ e' ∈ stored, e'.evidenceId fm = e.evidenceId fm → e' = e) :
    Agree (stored ++ [e]) := by
  intro a ha b hb hid
  cases List.mem_append.mp ha with
  | inl ha =>
    cases List.mem_append.mp hb with
    | inl hb => exact h a ha b hb hid
    | inr hb =>
      rw [List.mem_singleton.mp hb] at hid ⊢
      exact he a ha hid
  | inr ha =>
    rw [List.mem_singleton.mp ha] at hid ⊢
    cases List.mem_append.mp hb with
    | inl hb => exact (he b hb hid.symm).symm
    | inr hb => exact (List.mem_singleton.mp hb).symm

theorem not_ended_part {rest : Bytes} (h : tail ++ rest = e.bytes) (hrest : rest ≠ []) (hne : tail ≠ [])
    (b : Bytes) : ¬ Ended (b ++ tail) := by
  intro hended
  have hlast : tail.getLast hne ∈ (b ++ tail).getLast? := by
    rw [List.getLast?_append_of_ne_nil _ hne, List.getLast?_eq_some_getLast hne]
    rfl
  exact (part_unbroken h hrest _ (List.getLast_mem hne)).1 (hended _ hlast)

theorem Holds.opens (h : Holds s stored tail) :
    ∃ stored' records, loadExisting fm s.file = .ok (stored'.flatMap EvidenceEnvelope.bytes, records) ∧
      (∀ e ∈ stored', (e.evidenceId fm, e.line) ∈ records) ∧
      Holds { s with file := stored'.flatMap EvidenceEnvelope.bytes, live := some records } stored' [] := by
  have hempty : RecordsOf stored [] := ⟨List.nodup_nil, fun _ hr => nomatch hr⟩
  obtain ⟨records, hread, hof, _, hall⟩ := RecordsOf.lines h.agree (List.Subset.refl stored) 1 hempty
  have hwhole : Holds { s with file := stored.flatMap EvidenceEnvelope.bytes, live := some records } stored [] := by
    refine ⟨(List.append_nil _).symm, h.plain, h.agree, h.known, h.kept, .inl rfl, ?_⟩
    intro records' hrecords'
    rw [← Option.some.inj hrecords']
    exact hof
  unfold loadExisting
  by_cases htail : tail = []
  · rw [h.file, htail, List.append_nil, if_pos (ended_stored stored), splitlines_stored, hread]
    exact ⟨stored, records, rfl, hall, hwhole⟩
  · obtain hnil | ⟨e, hcut, rest, hrest, hpart, hplain, hagree⟩ := h.torn
    · exact absurd hnil htail
    rw [h.file, if_neg (not_ended_part hpart hrest htail _),
      rtakeWhile_tail (ended_stored stored) (part_unbroken hpart hrest),
      rdropWhile_tail (ended_stored stored) (part_unbroken hpart hrest)]
    cases part_of_line hpart hrest with
    | inr hless =>
      obtain ⟨more, hmore, hline⟩ := hless
      simp only [readLine_cut e hline hmore]
      rw [splitlines_stored, hread]
      exact ⟨stored, records, rfl, hall, hwhole⟩
    | inl hline =>
      have hmore : stored.flatMap EvidenceEnvelope.bytes ++ tail ++ [10] =
          (stored ++ [e]).flatMap EvidenceEnvelope.bytes := by
        rw [List.flatMap_append, List.flatMap_singleton, bytes_eq, hline, List.append_assoc]
      have hone : RecordsOf (stored ++ [e]) [(e.evidenceId fm, e.line)] := by
        refine ⟨List.nodup_singleton _, fun r hr => ⟨e, by simp, List.mem_singleton.mp hr⟩⟩
      have hagree' : Agree (stored ++ [e]) := agree_snoc h.agree hagree
      obtain ⟨records, hread, hof, _, hall⟩ := RecordsOf.lines hagree' (List.Subset.refl _) 1 hone
      simp only [hline, readLine_line]
      rw [← hline, hmore, splitlines_stored, hread]
      refine ⟨stored ++ [e], records, rfl, hall, (List.append_nil _).symm, ?_, hagree', ?_, ?_, .inl rfl, ?_⟩
      · exact List.forall_mem_append.mpr ⟨h.plain, List.forall_mem_singleton.mpr hplain⟩
      · exact List.forall_mem_append.mpr ⟨h.known, List.forall_mem_singleton.mpr (.inr hcut)⟩
      · exact List.Subset.trans h.kept (List.subset_append_left _ _)
      · intro records' hrecords'
        rw [← Option.some.inj hrecords']
        exact hof

theorem plain_line (h : e.Plain) : ∀ c ∈ e.line, isLineBreak c = false := by
  intro c hc
  by_contra hbreak
  have hvisible := line_visible hc
  have hnat : c.toNat = 133 ∨ c.toNat = 8232 ∨ c.toNat = 8233 := by
    rw [Bool.not_eq_false, isLineBreak] at hbreak
    simp only [Bool.or_eq_true, Bool.and_eq_true, decide_eq_true_eq, beq_iff_eq] at hbreak
    omega
  rw [line_eq] at hc
  obtain ⟨t, ht, hct⟩ := (mem_strings_sorted _).mp ((mem_write (by simp) (by omega) _).mp hc)
  exact h t ht c hct hnat

def textOfStored (stored : List (EvidenceEnvelope fm)) : Text := stored.flatMap fun e => e.line ++ ['\n']

theorem encode_stored (stored : List (EvidenceEnvelope fm)) :
    encode (textOfStored stored) = stored.flatMap EvidenceEnvelope.bytes := by
  induction stored with
  | nil => rfl
  | cons e stored ih => rw [textOfStored, List.flatMap_cons, encode_append, List.flatMap_cons, ← ih]; rfl

theorem splitlines_text (h : ∀ e ∈ stored, e.Plain) :
    PyText.splitlines (textOfStored stored) = stored.map (·.line) := by
  induction stored with
  | nil => rfl
  | cons e stored ih =>
    obtain ⟨he, hrest⟩ := List.forall_mem_cons.mp h
    rw [textOfStored, List.flatMap_cons, List.append_assoc, List.singleton_append,
      splitlines_append _ (plain_line he) (by decide) (by decide), List.map_cons]
    exact congrArg _ (ih hrest)

theorem no_return_stored (stored : List (EvidenceEnvelope fm)) : '\r' ∉ textOfStored stored := by
  intro h
  obtain ⟨e, _, hc⟩ := List.mem_flatMap.mp h
  cases List.mem_append.mp hc with
  | inl hc => exact absurd (line_visible hc) (by decide)
  | inr hc => exact absurd (List.mem_singleton.mp hc) (by decide)

theorem readRunEvidence_stored (h : ∀ e ∈ stored, e.Plain) :
    readRunEvidence fm (stored.flatMap EvidenceEnvelope.bytes) = some stored := by
  unfold readRunEvidence
  rw [← encode_stored, decode_encode]
  show List.mapM _ _ = _
  rw [universalNewlines_of_no_return (no_return_stored stored), splitlines_text h]
  have hlines : (stored.map (·.line)).filter (fun line => strip line ≠ []) = stored.map (·.line) := by
    apply List.filter_eq_self.mpr
    intro line hline
    obtain ⟨e, _, rfl⟩ := List.mem_map.mp hline
    obtain ⟨t, ht⟩ := line_head e
    rw [ht]
    exact decide_eq_true (Core.strip_brace t)
  rw [hlines]
  clear hlines h
  induction stored with
  | nil => rfl
  | cons e stored ih =>
    rw [List.map_cons, List.mapM_cons, ih, loads_line]
    show (decodeEvidence fm _).toOption.bind _ = _
    rw [decodeEvidence_toJson]
    rfl

theorem Holds.survives (h : Holds s stored tail) : Survives s := by
  obtain ⟨stored', records, hload, hall, hholds⟩ := h.opens
  have hof := hholds.live records rfl
  refine ⟨_, records, hload, hof.nodup, ?_, ?_, stored', readRunEvidence_stored hholds.plain, hof.known⟩
  · intro r hr
    obtain ⟨e, he, hre⟩ := hof.known r hr
    exact ⟨e, hholds.known e he, hre⟩
  · intro e he
    exact hall e (hholds.kept he)

theorem Holds.written (h : Holds s stored []) (hplain : e.Plain)
    (hagree : ∀ e' ∈ stored, e'.evidenceId fm = e.evidenceId fm → e' = e) {live : Option Records}
    (hlive : ∀ records ∈ live, RecordsOf stored records) (k : ℕ) :
    ∃ stored' tail', Holds { s with file := s.file ++ e.bytes.take k, cut := s.cut ++ [e], live } stored' tail' := by
  have hknown : ∀ e' ∈ stored, e' ∈ s.returned ∨ e' ∈ s.cut ++ [e] := fun e' he' =>
    (h.known e' he').imp id (List.mem_append_left _)
  have hfile : s.file = stored.flatMap EvidenceEnvelope.bytes := h.file.trans (List.append_nil _)
  by_cases hk : k < e.bytes.length
  · refine ⟨stored, e.bytes.take k, congrArg (· ++ _) hfile, h.plain, h.agree, hknown, h.kept, .inr ?_, hlive⟩
    refine ⟨e, by simp, e.bytes.drop k, ?_, List.take_append_drop k _, hplain, hagree⟩
    rw [Ne, List.drop_eq_nil_iff]
    omega
  · refine ⟨stored ++ [e], [], ?_, ?_, agree_snoc h.agree hagree, ?_, ?_, .inl rfl, ?_⟩
    · rw [List.take_of_length_le (by omega), hfile, List.flatMap_append, List.flatMap_singleton, List.append_nil]
    · exact List.forall_mem_append.mpr ⟨h.plain, List.forall_mem_singleton.mpr hplain⟩
    · exact List.forall_mem_append.mpr ⟨hknown, List.forall_mem_singleton.mpr (.inr (by simp))⟩
    · exact List.Subset.trans h.kept (List.subset_append_left _ _)
    · exact fun records hrecords => (hlive records hrecords).mono (List.subset_append_left _ _)

theorem Holds.append (h : Holds s stored tail) (hlive : s.live = some records) (w : Write)
    (hsafe : (records.find? fun r => r.1 = e.evidenceId fm) = none → Ended s.file ∧ e.Plain ∧
      ∀ line ∈ PyBytes.splitlines s.file, ∀ e', readLine fm line = some e' →
        e'.evidenceId fm = e.evidenceId fm → e' = e) :
    ∃ stored' tail', Holds (s.append records e w) stored' tail' := by
  have hof : RecordsOf stored records := h.live records hlive
  unfold EvidenceFile.append
  cases hfind : records.find? fun r => r.1 = e.evidenceId fm with
  | some r =>
    dsimp only
    by_cases hline : r.2 ≠ e.line
    · rw [if_pos hline]
      exact ⟨stored, tail, h⟩
    · -- the same envelope was stored before
      obtain ⟨e', he', hr⟩ := hof.known r (List.mem_of_find?_eq_some hfind)
      rw [hr, not_not] at hline
      have hmem : e ∈ stored := line_injective hline ▸ he'
      rw [if_neg (by rw [hr, not_not]; exact hline)]
      refine ⟨stored, tail, h.file, h.plain, h.agree, ?_, ?_, h.torn, h.live⟩
      · exact fun e' he' => (h.known e' he').imp (List.mem_append_left _) id
      · exact List.append_subset.mpr ⟨h.kept, List.cons_subset.mpr ⟨hmem, List.nil_subset _⟩⟩
  | none =>
    obtain ⟨hended, hplain, hother⟩ := hsafe hfind
    have htail : tail = [] := by
      by_contra hne
      obtain hnil | ⟨e', _, rest, hrest, hpart, _, _⟩ := h.torn
      · exact hne hnil
      · rw [h.file] at hended
        exact not_ended_part hpart hrest hne _ hended
    subst htail
    have hfile : s.file = stored.flatMap EvidenceEnvelope.bytes := h.file.trans (List.append_nil _)
    have hagree : ∀ e' ∈ stored, e'.evidenceId fm = e.evidenceId fm → e' = e := by
      intro e' he' hid
      apply hother (encode e'.line) _ e' (readLine_line e') hid
      rw [hfile, splitlines_stored]
      exact List.mem_map_of_mem he'
    cases w with
    | failed k => exact h.written hplain hagree h.live k
    | died k => exact h.written hplain hagree (fun _ hnone => absurd hnone (Option.not_mem_none _)) k
    | done =>
      refine ⟨stored ++ [e], [], ?_, ?_, agree_snoc h.agree hagree, ?_, ?_, .inl rfl, ?_⟩
      · rw [hfile, List.flatMap_append, List.flatMap_singleton, List.append_nil]
      · exact List.forall_mem_append.mpr ⟨h.plain, List.forall_mem_singleton.mpr hplain⟩
      · intro e' he'
        cases List.mem_append.mp he' with
        | inl he' => exact (h.known e' he').imp (List.mem_append_left _) id
        | inr he' => exact .inl (List.mem_append_right _ he')
      · exact List.append_subset.mpr ⟨List.Subset.trans h.kept (List.subset_append_left _ _),
          List.subset_append_right _ _⟩
      · intro records' hrecords'
        rw [← Option.some.inj hrecords']
        exact (hof.mono (List.subset_append_left _ _)).snoc (by simp) hfind

theorem holds_step {event : SinkEvent fm} {s' : EvidenceFile fm} (h : ∃ stored tail, Holds s stored tail)
    (hsafe : SafeWrite s event) (hstep : sinkStep s event = some s') : ∃ stored tail, Holds s' stored tail := by
  obtain ⟨stored, tail, h⟩ := h
  cases event with
  | opened =>
    obtain ⟨stored', records, hload, _, hholds⟩ := h.opens
    unfold sinkStep at hstep
    simp only [hload] at hstep
    rw [← Option.some.inj hstep]
    exact ⟨stored', [], hholds⟩
  | died =>
    rw [← Option.some.inj hstep]
    exact ⟨stored, tail, h.file, h.plain, h.agree, h.known, h.kept, h.torn, fun _ hnone => nomatch hnone⟩
  | append offered w =>
    unfold sinkStep at hstep
    cases hlive : s.live with
    | none =>
      rw [hlive] at hstep
      exact nomatch hstep
    | some records =>
      cases hoffered : normalized offered with
      | none =>
        simp only [hlive, hoffered] at hstep
        rw [← Option.some.inj hstep]
        exact ⟨stored, tail, h⟩
      | some e =>
        simp only [hlive, hoffered] at hstep
        rw [← Option.some.inj hstep]
        exact h.append hlive w (hsafe records e hlive hoffered)

/-- As long as no line is written behind one that a failed write left unfinished, the file
opens and gives back what was appended. -/
theorem evidence_survives (events : List (SinkEvent fm)) (h : Runs.Meets sinkStep SafeWrite {} events) :
    Runs.Everywhere sinkStep Survives {} events := by
  have hstart : ∃ stored tail, Holds ({} : EvidenceFile fm) stored tail :=
    ⟨[], [], rfl, fun _ he => (nomatch he), fun _ he => (nomatch he), fun _ he => (nomatch he),
      List.Subset.refl _, .inl rfl, fun _ hnone => (nomatch hnone)⟩
  refine (Runs.everywhere_of_meets (fun s event s' hs hsafe hstep => holds_step hs hsafe hstep) hstart h).mono ?_
  intro s hs
  obtain ⟨stored, tail, hholds⟩ := hs
  exact hholds.survives

theorem loads_two_braces (t : Text) : loads ('\x7b' :: '\x7b' :: t) = none := by
  unfold loads
  rw [skip_cons _ (by decide), List.length_cons, show 2 * (('\x7b' :: t).length + 1) + 2 =
    (2 * ('\x7b' :: t).length + 2) + 1 + 1 from by omega]
  simp [readValue, readMembers, skip_cons, isJsonSpace]

theorem lost_behind_part (e : EvidenceEnvelope fm) :
    loadExisting fm (e.bytes.take 1 ++ e.bytes) = .error (.invalidLine 1) := by
  obtain ⟨t, ht⟩ := line_head e
  have hbyte : e.bytes.take 1 = encode ['\x7b'] := by
    rw [EvidenceEnvelope.bytes, ht]
    rfl
  have hline : Unbroken (encode ('\x7b' :: e.line)) := by
    intro c hc
    cases List.mem_append.mp (show c ∈ encode ['\x7b'] ++ encode e.line from hc) with
    | inl hc => exact List.mem_singleton.mp hc ▸ (by decide)
    | inr hc => exact line_unbroken e c hc
  have hfile : e.bytes.take 1 ++ e.bytes = encode ('\x7b' :: e.line) ++ 10 :: [] := by
    rw [hbyte, bytes_eq, ← List.append_assoc, ← encode_append]
    rfl
  have hended : Ended (e.bytes.take 1 ++ e.bytes) := by
    have hlines := ended_lines [encode ('\x7b' :: e.line)]
    rwa [List.flatMap_singleton, ← hfile] at hlines
  have hblank : PyBytes.isBlank (encode ('\x7b' :: e.line)) = false := rfl
  have hread : readLine fm (encode ('\x7b' :: e.line)) = none := by
    have hloads : loads ('\x7b' :: e.line) = none := by
      rw [ht]
      exact loads_two_braces t
    rw [readLine, decode_encode]
    show (loads _).bind (fun payload => (decodeEvidence fm payload).toOption) = none
    rw [hloads]
    rfl
  unfold loadExisting
  rw [if_pos hended, hfile, splitlines_cons _ hline, rememberLines, hblank, if_neg Bool.false_ne_true, hread]
  rfl

def sampleFormats : EvidenceFormats where
  float := some
  hash _ := 
    ['5', 'c', 'e', '1', '1', 'b', 'f', '5', '4', 'd', 'c', '7', '4', '0', '2', '2', '2', 'e', '3', 'e', 'd', 'c', 'e', '2', '8', '2', '0', '2', '2', 'a', '6', '0',
      'a', '9', '7', '2', 'd', '0', 'b', 'c', '1', 'c', '6', '2', 'b', '8', 'd', 'e', '8', '7', '0', 'd', 'c', '7', '1', '5', '7', 'f', 'b', 'c', 'a', 'd', '5', '5']
  float_float := float_some
  hash_real _ := by decide
  float_zero := some_zero

theorem lostWorker_nonempty : ∀ t ∈ ["c".toList, "m".toList, "e".toList, "u".toList], strip t ≠ [] := by decide

theorem lostWorker_trustworthy : 0 ≤ 0 := by decide

theorem lostWorker_executed : 0 < 3 → 0 ≤ 3 := by decide

def lostWorker : EvidenceBody where
  candidateId := "a1".toList
  scoreNamespace := ⟨"c".toList, "m".toList, "e".toList, "u".toList, lostWorker_nonempty⟩
  evaluationValid := false
  admissible := none
  fitness := none
  faultKind := some .infraError
  coverage := ⟨3, 0, 0, lostWorker_trustworthy, lostWorker_executed⟩
  missingReasons := ["the worker was lost".toList]
  budgetUsedUsd := zero

theorem lostWorker_checked : lostWorker.check = .ok () := by decide

theorem lostWorker_fitness : lostWorker.fitness.map sampleFormats.float = lostWorker.fitness.map some := rfl

theorem lostWorker_budget : sampleFormats.float lostWorker.budgetUsedUsd = some lostWorker.budgetUsedUsd := rfl

theorem lostWorker_observations : sorted lostWorker.observations = lostWorker.observations := by
  simp [lostWorker, sorted, sortedMembers]

theorem lostWorker_observed_once : Distinct lostWorker.observations := by decide

theorem lostWorker_provenance : sorted lostWorker.provenance = lostWorker.provenance := by
  simp [lostWorker, sorted, sortedMembers]

theorem lostWorker_provided_once : Distinct lostWorker.provenance := by decide

def sample : EvidenceEnvelope sampleFormats where
  toEvidenceBody := lostWorker
  checked := lostWorker_checked
  fitness_float := lostWorker_fitness
  budget_float := lostWorker_budget
  observations_sorted := lostWorker_observations
  provenance_sorted := lostWorker_provenance
  observations_distinct := lostWorker_observed_once
  provenance_distinct := lostWorker_provided_once

theorem open_empty : sinkStep ({} : EvidenceFile fm) .opened = some { live := some [] } := by
  have hended : Ended [] := fun c hc => nomatch hc
  have hload : loadExisting fm [] = .ok ([], []) := by
    unfold loadExisting
    rw [if_pos hended]
    rfl
  unfold sinkStep
  simp only [hload]

theorem retry_lost (e : EvidenceEnvelope fm) : ∃ s, Runs.run sinkStep {} [.opened, .append (.inl e) (.failed 1),
    .append (.inl e) .done] = some s ∧ e ∈ s.returned ∧ ¬ Survives s := by
  have hfirst : ({ live := some [] } : EvidenceFile fm).append [] e (.failed 1) =
      { file := e.bytes.take 1, live := some [], cut := [e] } := rfl
  have hsecond : ({ file := e.bytes.take 1, live := some [], cut := [e] } : EvidenceFile fm).append [] e .done =
      { file := e.bytes.take 1 ++ e.bytes, live := some [(e.evidenceId fm, e.line)], returned := [e], cut := [e] } := rfl
  have hrun : Runs.run sinkStep {} [.opened, .append (.inl e) (.failed 1), .append (.inl e) .done] = some {
      file := e.bytes.take 1 ++ e.bytes, live := some [(e.evidenceId fm, e.line)], returned := [e], cut := [e] } :=
    Runs.run_cons.mpr ⟨_, open_empty, Runs.run_cons.mpr ⟨_, congrArg some hfirst,
      Runs.run_cons.mpr ⟨_, congrArg some hsecond, rfl⟩⟩⟩
  refine ⟨_, hrun, List.mem_singleton.mpr rfl, fun h => ?_⟩
  obtain ⟨file, records, hload, _⟩ := h
  rw [lost_behind_part] at hload
  exact nomatch hload

theorem retry_is_lost : ∃ s, Runs.run sinkStep {} [.opened, .append (.inl sample) (.failed 1),
    .append (.inl sample) .done] = some s ∧ sample ∈ s.returned ∧ ¬ Survives s := retry_lost sample

theorem sample_plain : sample.Plain := by
  have hascii : ((strings (.object sample.toJson)).all fun t => t.all fun c => c.toNat.blt 128) = true := by
    decide
  intro t ht c hc hbreak
  have hlow := Nat.le_of_ble_eq_true (List.all_eq_true.mp (List.all_eq_true.mp hascii t ht) c hc)
  omega

theorem evidence_survives_crash : Runs.Everywhere sinkStep Survives {} [.opened, .append (.inl sample) .done, .died,
    .opened] := by
  apply evidence_survives
  intro s hs
  obtain rfl : { live := some [] } = s := Option.some.inj (open_empty.symm.trans hs)
  refine ⟨trivial, fun t ht => ⟨?_, fun u hu => ⟨trivial, fun v hv => ⟨trivial, trivial⟩⟩⟩⟩
  intro records e hrecords he _
  obtain rfl : sample = e := Option.some.inj he
  exact ⟨fun c hc => (nomatch hc), sample_plain, fun line hline => (nomatch hline)⟩

end EvoHarness.Evaluation
