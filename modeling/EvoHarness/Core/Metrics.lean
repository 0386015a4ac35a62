import EvoHarness.Library.JsonLines
import Mathlib.Logic.Function.Basic

/-! The metric log: its points, the lines it appends for them, and what a log on the same file is opened with. -/
namespace EvoHarness.Core.Metrics
open PyText Json

def update (flat new : List (Text × Value)) : List (Text × Value) := new.foldl (fun acc p => insertKey p.1 p.2 acc) flat

mutual

def flattenValue (full : Text) : Value → List (Text × Value) → List (Text × Value)
  | .object qs, flat => update flat (flattenMembers (full ++ ['/']) qs [])
  | value, flat => insertKey full value flat

def flattenMembers (start : Text) : List (Text × Value) → List (Text × Value) → List (Text × Value)
  | [], flat => flat
  | (key, value) :: ps, flat => flattenMembers start ps (flattenValue (start ++ key) value flat)

end

def flatten (metrics : List (Text × Value)) : List (Text × Value) := flattenMembers [] metrics []

structure MetricPoint where
  step : Value
  key : Text
  value : Value
  candidateId : Value := .null
  ts : Value := .number ⟨"0.0".toList, isNumeral_zero⟩

/-- One call of `log`, with what `time.time()` gave. A dict has no key twice. -/
structure Call where
  step : ℤ
  metrics : List (Text × Value)
  candidateId : Option Text
  ts : Numeral
  distinct : Distinct (.object metrics)

def candidate : Option Text → Value
  | none => .null
  | some s => .string s

def Call.points (c : Call) : List MetricPoint :=
  (flatten c.metrics).map fun p => ⟨.number (.ofInt c.step), p.1, p.2, candidate c.candidateId, .number c.ts⟩

def Call.row (c : Call) : Value :=
  .object [("step".toList, .number (.ofInt c.step)), ("ts".toList, .number c.ts),
    ("candidate_id".toList, candidate c.candidateId), ("metrics".toList, .object (flatten c.metrics))]

def Call.rows (c : Call) : List Value := if flatten c.metrics = [] then [] else [c.row]

def readRow : Value → Option (List MetricPoint)
  | .object ps =>
    match ps.lookup "metrics".toList with
    | some (.object ms) => ms.mapM fun m => do
      let step ← ps.lookup "step".toList
      return { step, key := m.1, value := m.2, candidateId := (ps.lookup "candidate_id".toList).getD .null
               ts := (ps.lookup "ts".toList).getD (.number ⟨"0.0".toList, isNumeral_zero⟩) }
    | _ => none
  | _ => none

/-- `MetricLog(path)` for what the file has, or `none` where it raises. -/
def load : Option Text → Option (List MetricPoint)
  | none => some []
  | some t => (JsonLines.readFile readRow t).map List.flatten

section
variable {ω : Type} [DecidableEq ω]

structure World (ω : Type) where
  file : Option Text := none
  logs : ω → Option (List MetricPoint) := fun _ => none

inductive Event (ω : Type) where
  | opened (w : ω)
  | logged (w : ω) (c : Call)

def step (s : World ω) : Event ω → World ω
  | .opened w => { s with logs := Function.update s.logs w (load s.file) }
  | .logged w c =>
    match s.logs w with
    | none => s
    | some points =>
      { file := if c.rows = [] then s.file else some (s.file.getD [] ++ JsonLines.file c.rows)
        logs := Function.update s.logs w (some (points ++ c.points)) }

def run (s : World ω) (es : List (Event ω)) : World ω := es.foldl step s

def added (s : World ω) : Event ω → List Call
  | .opened _ => []
  | .logged w c => if (s.logs w).isSome then [c] else []

def calls (s : World ω) : List (Event ω) → List Call
  | [] => []
  | e :: es => added s e ++ calls (step s e) es

def own (w : ω) : List (Event ω) → List Call
  | [] => []
  | .opened _ :: es => own w es
  | .logged v c :: es => if v = w then c :: own w es else own w es

end

theorem distinct_empty : Distinct (.object []) := ⟨List.nodup_nil, trivial⟩

theorem distinct_insertKey {k : Text} {v : Value} {flat : List (Text × Value)} (hv : Distinct v)
    (h : Distinct (.object flat)) : Distinct (.object (insertKey k v flat)) := by
  rw [distinct_object] at h ⊢
  refine ⟨nodup_insertKey h.1, fun p hp => ?_⟩
  rcases mem_insertKey hp with rfl | hp
  · exact hv
  · exact h.2 p hp

theorem distinct_update {flat new : List (Text × Value)} (hnew : ∀ p ∈ new, Distinct p.2) (h : Distinct (.object flat)) :
    Distinct (.object (update flat new)) := by
  induction new generalizing flat with
  | nil => exact h
  | cons p new ih =>
    rw [List.forall_mem_cons] at hnew
    exact ih hnew.2 (distinct_insertKey hnew.1 h)

mutual

theorem distinct_flattenValue (full : Text) (v : Value) {flat : List (Text × Value)} (hv : Distinct v)
    (h : Distinct (.object flat)) : Distinct (.object (flattenValue full v flat)) := by
  cases v with
  | object qs =>
    have hqs := distinct_flattenMembers (full ++ ['/']) qs (distinct_object.mp hv).2 distinct_empty
    rw [flattenValue]
    exact distinct_update (distinct_object.mp hqs).2 h
  | null => exact distinct_insertKey hv h
  | bool b => exact distinct_insertKey hv h
  | number n => exact distinct_insertKey hv h
  | string s => exact distinct_insertKey hv h
  | array xs => exact distinct_insertKey hv h

theorem distinct_flattenMembers (start : Text) (ps : List (Text × Value)) {flat : List (Text × Value)}
    (hps : ∀ p ∈ ps, Distinct p.2) (h : Distinct (.object flat)) : Distinct (.object (flattenMembers start ps flat)) := by
  cases ps with
  | nil => exact h
  | cons p ps =>
    obtain ⟨key, value⟩ := p
    rw [List.forall_mem_cons] at hps
    rw [flattenMembers]
    exact distinct_flattenMembers start ps hps.2 (distinct_flattenValue (start ++ key) value hps.1 h)

end

theorem distinct_flatten (c : Call) : Distinct (.object (flatten c.metrics)) :=
  distinct_flattenMembers [] c.metrics (distinct_object.mp c.distinct).2 distinct_empty

/-- The leaf at a path of nested dicts. -/
inductive Leaf : List (Text × Value) → Text → Value → Prop
  | here {ps : List (Text × Value)} {key : Text} {value : Value} : (key, value) ∈ ps → (∀ qs, value ≠ .object qs) →
      Leaf ps key value
  | nested {ps qs : List (Text × Value)} {key path : Text} {value : Value} : (key, .object qs) ∈ ps → Leaf qs path value →
      Leaf ps (key ++ '/' :: path) value

theorem leaf_cons {p : Text × Value} {ps : List (Text × Value)} {path : Text} {value : Value} :
    Leaf (p :: ps) path value ↔ Leaf [p] path value ∨ Leaf ps path value := by
  constructor
  · rintro (⟨hmem, hvalue⟩ | ⟨hmem, hleaf⟩)
    · rcases List.mem_cons.mp hmem with rfl | hmem
      · exact .inl (.here (List.mem_singleton_self _) hvalue)
      · exact .inr (.here hmem hvalue)
    · rcases List.mem_cons.mp hmem with rfl | hmem
      · exact .inl (.nested (List.mem_singleton_self _) hleaf)
      · exact .inr (.nested hmem hleaf)
  · rintro ((⟨hmem, hvalue⟩ | ⟨hmem, hleaf⟩) | (⟨hmem, hvalue⟩ | ⟨hmem, hleaf⟩))
    · exact .here (List.mem_cons.mpr (.inl (List.mem_singleton.mp hmem))) hvalue
    · exact .nested (List.mem_cons.mpr (.inl (List.mem_singleton.mp hmem))) hleaf
    · exact .here (List.mem_cons_of_mem p hmem) hvalue
    · exact .nested (List.mem_cons_of_mem p hmem) hleaf

theorem mem_update {flat new : List (Text × Value)} {p : Text × Value} (h : p ∈ update flat new) : p ∈ flat ∨ p ∈ new := by
  induction new generalizing flat with
  | nil => exact .inl h
  | cons q new ih =>
    rcases ih h with hflat | hnew
    · rcases mem_insertKey hflat with rfl | hold
      · exact .inr (List.mem_cons_self ..)
      · exact .inl hold
    · exact .inr (List.mem_cons_of_mem q hnew)

theorem keys_insertKey {k key : Text} {x : Value} {ps : List (Text × Value)} :
    key ∈ (insertKey k x ps).map (·.1) ↔ key = k ∨ key ∈ ps.map (·.1) := by
  induction ps with
  | nil => simp [insertKey]
  | cons p ps ih =>
    rw [insertKey]
    split
    · next hkey => simp [hkey]
    · rw [List.map_cons, List.mem_cons, ih, List.map_cons, List.mem_cons, or_left_comm]

theorem keys_update {flat new : List (Text × Value)} {key : Text} :
    key ∈ (update flat new).map (·.1) ↔ key ∈ flat.map (·.1) ∨ key ∈ new.map (·.1) := by
  induction new generalizing flat with
  | nil => simp [update]
  | cons q new ih =>
    have hcons : update flat (q :: new) = update (insertKey q.1 q.2 flat) new := rfl
    rw [hcons, ih, keys_insertKey, List.map_cons, List.mem_cons, or_comm (a := key = q.1), or_assoc]

/-- What flattening adds under `start` to what was there: values of leaves, and every leaf's path among the keys. -/
structure Adds (start : Text) (leaf : Text → Value → Prop) (flat after : List (Text × Value)) : Prop where
  values : ∀ p ∈ after, p ∈ flat ∨ ∃ path, p.1 = start ++ path ∧ leaf path p.2
  keys : ∀ key, key ∈ after.map (·.1) ↔ key ∈ flat.map (·.1) ∨ ∃ path value, leaf path value ∧ key = start ++ path

theorem Adds.leaf {start key : Text} {value : Value} (hvalue : ∀ qs, value ≠ .object qs) (flat : List (Text × Value)) :
    Adds start (Leaf [(key, value)]) flat (insertKey (start ++ key) value flat) where
  values p hp := by
    rcases mem_insertKey hp with rfl | hp
    · exact .inr ⟨key, rfl, .here (List.mem_singleton_self _) hvalue⟩
    · exact .inl hp
  keys k := by
    rw [keys_insertKey, or_comm]
    refine or_congr_right ⟨fun h => ⟨key, value, .here (List.mem_singleton_self _) hvalue, h⟩, ?_⟩
    rintro ⟨path, v, ⟨hmem, -⟩ | ⟨hmem, -⟩, rfl⟩
    · rw [(Prod.mk.inj (List.mem_singleton.mp hmem)).1]
    · exact absurd (Prod.mk.inj (List.mem_singleton.mp hmem)).2.symm (hvalue _)

mutual

theorem adds_flattenValue (start key : Text) (v : Value) (flat : List (Text × Value)) :
    Adds start (Leaf [(key, v)]) flat (flattenValue (start ++ key) v flat) := by
  cases v with
  | object qs =>
    have hqs := adds_flattenMembers (start ++ key ++ ['/']) qs []
    rw [flattenValue]
    constructor
    · intro p hp
      rcases mem_update hp with hp | hp
      · exact .inl hp
      · rcases hqs.values p hp with hp | ⟨path, hpath, hleaf⟩
        · exact absurd hp List.not_mem_nil
        · exact .inr ⟨key ++ '/' :: path, by simp [hpath], .nested (List.mem_singleton_self _) hleaf⟩
    · intro k
      rw [keys_update, hqs.keys]
      refine or_congr_right ⟨?_, ?_⟩
      · rintro (h | ⟨path, value, hleaf, rfl⟩)
        · exact absurd h List.not_mem_nil
        · exact ⟨key ++ '/' :: path, value, .nested (List.mem_singleton_self _) hleaf, by simp⟩
      · rintro ⟨path, value, ⟨hmem, hvalue⟩ | ⟨hmem, hleaf⟩, rfl⟩
        · exact absurd (Prod.mk.inj (List.mem_singleton.mp hmem)).2 (hvalue qs)
        · obtain ⟨rfl, hobject⟩ := Prod.mk.inj (List.mem_singleton.mp hmem)
          cases hobject
          exact .inr ⟨_, value, hleaf, by simp⟩
  | null => exact .leaf (by simp) flat
  | bool b => exact .leaf (by simp) flat
  | number n => exact .leaf (by simp) flat
  | string s => exact .leaf (by simp) flat
  | array xs => exact .leaf (by simp) flat

theorem adds_flattenMembers (start : Text) (ps flat : List (Text × Value)) :
    Adds start (Leaf ps) flat (flattenMembers start ps flat) := by
  cases ps with
  | nil =>
    refine ⟨fun p hp => .inl hp, fun k => ?_⟩
    refine (or_iff_left ?_).symm
    rintro ⟨path, value, ⟨hmem, -⟩ | ⟨hmem, -⟩, -⟩ <;> exact absurd hmem List.not_mem_nil
  | cons p ps =>
    obtain ⟨key, value⟩ := p
    have hfirst := adds_flattenValue start key value flat
    have hrest := adds_flattenMembers start ps (flattenValue (start ++ key) value flat)
    rw [flattenMembers]
    constructor
    · intro p hp
      rcases hrest.values p hp with hp | ⟨path, hpath, hleaf⟩
      · rcases hfirst.values p hp with hp | ⟨path, hpath, hleaf⟩
        · exact .inl hp
        · exact .inr ⟨path, hpath, leaf_cons.mpr (.inl hleaf)⟩
      · exact .inr ⟨path, hpath, leaf_cons.mpr (.inr hleaf)⟩
    · intro k
      simp only [hrest.keys, hfirst.keys, @leaf_cons (key, value) ps, or_and_right, exists_or, or_assoc]

end

/-- Flattened metrics have one value for each path at which there is a leaf, the value of a leaf at that path, and
nothing else. -/
theorem flatten_spec (c : Call) : ((flatten c.metrics).map (·.1)).Nodup ∧
    (∀ p ∈ flatten c.metrics, Leaf c.metrics p.1 p.2) ∧
      ∀ path value, Leaf c.metrics path value → path ∈ (flatten c.metrics).map (·.1) := by
  have hadds := adds_flattenMembers [] c.metrics []
  refine ⟨(distinct_object.mp (distinct_flatten c)).1, fun p hp => ?_, fun path value hleaf => ?_⟩
  · rcases hadds.values p hp with hp | ⟨path, hpath, hleaf⟩
    · exact absurd hp List.not_mem_nil
    · rw [hpath]
      exact hleaf
  · exact (hadds.keys path).mpr (.inr ⟨path, value, hleaf, rfl⟩)

theorem isObject_row (c : Call) : IsObject c.row := ⟨_, rfl⟩

theorem distinct_row (c : Call) : Distinct c.row := by
  have hcandidate : Distinct (candidate c.candidateId) := by
    cases c.candidateId with
    | none => trivial
    | some s => trivial
  exact ⟨by simp, trivial, trivial, hcandidate, distinct_flatten c, trivial⟩

theorem readRow_row (c : Call) : readRow c.row = some c.points := by
  have hmap : ∀ ms : List (Text × Value),
      ms.mapM (fun m => some (MetricPoint.mk (.number (.ofInt c.step)) m.1 m.2 (candidate c.candidateId) (.number c.ts))) =
        some (ms.map fun m => ⟨.number (.ofInt c.step), m.1, m.2, candidate c.candidateId, .number c.ts⟩) := by
    intro ms
    induction ms with
    | nil => rfl
    | cons m ms ih =>
      rw [List.mapM_cons, ih]
      rfl
  exact hmap (flatten c.metrics)

theorem rows_spec (c : Call) : (∀ x ∈ c.rows, Distinct x ∧ IsObject x) ∧ c.rows.mapM readRow = some (c.rows.map fun _ => c.points) ∧
    (c.rows.map fun _ => c.points).flatten = c.points := by
  by_cases h : flatten c.metrics = []
  · have hpoints : c.points = [] := by
      rw [Call.points, h]
      rfl
    rw [Call.rows, if_pos h, hpoints]
    exact ⟨nofun, rfl, rfl⟩
  · rw [Call.rows, if_neg h]
    refine ⟨fun x hx => ?_, ?_, List.append_nil _⟩
    · rw [List.mem_singleton.mp hx]
      exact ⟨distinct_row c, isObject_row c⟩
    · rw [List.mapM_cons, readRow_row]
      rfl

theorem load_rows (cs : List Call) : load (some (JsonLines.file (cs.flatMap Call.rows))) = some (cs.flatMap Call.points) := by
  have hrows : ∀ x ∈ cs.flatMap Call.rows, Distinct x ∧ IsObject x := by
    intro x hx
    obtain ⟨c, -, hxc⟩ := List.mem_flatMap.mp hx
    exact (rows_spec c).1 x hxc
  have hread : ((cs.flatMap Call.rows).mapM readRow).map List.flatten = some (cs.flatMap Call.points) := by
    clear hrows
    induction cs with
    | nil => rfl
    | cons c cs ih =>
      obtain ⟨ys, hys, hflat⟩ := Option.map_eq_some_iff.mp ih
      rw [List.flatMap_cons, List.flatMap_cons, List.mapM_append, (rows_spec c).2.1, hys, ← hflat]
      change some (List.flatten (_ ++ ys)) = _
      rw [List.flatten_append, (rows_spec c).2.2]
  rw [load, JsonLines.readFile_file hrows, hread]

section
variable {ω : Type} {s : World ω}

def Holds (s : World ω) (cs : List Call) : Prop :=
  s.file = some (JsonLines.file (cs.flatMap Call.rows)) ∨ s.file = none ∧ cs.flatMap Call.rows = []

theorem Holds.load {cs : List Call} (h : Holds s cs) : load s.file = some (cs.flatMap Call.points) := by
  rcases h with h | ⟨h, hnone⟩
  · rw [h, load_rows]
  · have hload := load_rows cs
    rw [hnone] at hload
    rw [h, ← hload]
    rfl

variable [DecidableEq ω]

theorem Holds.step {cs : List Call} (h : Holds s cs) (e : Event ω) : Holds (step s e) (cs ++ added s e) := by
  cases e with
  | opened w =>
    rw [added, List.append_nil]
    exact h
  | logged w c =>
    cases hw : s.logs w with
    | none =>
      simp only [Metrics.step, added, hw, Option.isSome_none, Bool.false_eq_true, if_false, List.append_nil]
      exact h
    | some points =>
      simp only [Metrics.step, added, hw, Option.isSome_some, if_true, Holds, List.flatMap_append, List.flatMap_singleton]
      by_cases hrows : c.rows = []
      · rw [if_pos hrows, hrows, List.append_nil]
        exact h
      · rw [if_neg hrows, JsonLines.file_append]
        rcases h with h | ⟨h, hnone⟩
        · rw [h]
          exact .inl rfl
        · rw [h, hnone]
          exact .inl rfl

theorem Holds.run {cs : List Call} (h : Holds s cs) (es : List (Event ω)) : Holds (run s es) (cs ++ calls s es) := by
  induction es generalizing s cs with
  | nil =>
    rw [calls, List.append_nil]
    exact h
  | cons e es ih =>
    rw [calls, ← List.append_assoc]
    exact ih (h.step e)

/-- While a log is not opened again it has its own points behind those it was opened with. -/
theorem own_points {w : ω} {points : List MetricPoint} (h : s.logs w = some points) {es : List (Event ω)}
    (hes : Event.opened w ∉ es) : (run s es).logs w = some (points ++ (own w es).flatMap Call.points) := by
  induction es generalizing s points with
  | nil =>
    rw [own, List.flatMap_nil, List.append_nil]
    exact h
  | cons e es ih =>
    rw [List.mem_cons, not_or] at hes
    cases e with
    | opened v =>
      have hne : w ≠ v := fun hwv => hes.1 (hwv ▸ rfl)
      refine ih ?_ hes.2
      rw [Metrics.step]
      dsimp only
      rw [Function.update_of_ne hne, h]
    | logged v c =>
      by_cases hv : v = w
      · subst hv
        have hstep : (Metrics.step s (.logged v c)).logs v = some (points ++ c.points) := by
          simp [Metrics.step, h]
        rw [own, if_pos rfl, List.flatMap_cons, ← List.append_assoc]
        exact ih hstep hes.2
      · rw [own, if_neg hv]
        refine ih ?_ hes.2
        cases hother : s.logs v with
        | none => simpa only [Metrics.step, hother] using h
        | some others =>
          simp only [Metrics.step, hother]
          rw [Function.update_of_ne (Ne.symm hv), h]

end

/-- Whichever logs wrote to one file, a log that is opened on it has every point they logged, in order, and goes on
from there. -/
theorem metricLog_reopens {ω : Type} [DecidableEq ω] (es : List (Event ω)) :
    load (run {} es).file = some ((calls {} es).flatMap Call.points) ∧
      ∀ before w after, es = before ++ .opened w :: after → Event.opened w ∉ after →
        (run {} es).logs w = some ((calls {} before ++ own w after).flatMap Call.points) := by
  have hstart : Holds ({} : World ω) [] := .inr ⟨rfl, rfl⟩
  refine ⟨?_, fun before w after hes hafter => ?_⟩
  · have hholds := hstart.run es
    rw [List.nil_append] at hholds
    exact hholds.load
  · have hbefore := hstart.run before
    rw [List.nil_append] at hbefore
    have hopen : (Metrics.step (run {} before) (.opened w)).logs w = some ((calls {} before).flatMap Call.points) := by
      rw [Metrics.step]
      dsimp only
      rw [Function.update_self, hbefore.load]
    rw [hes, run, List.foldl_append, List.foldl_cons, List.flatMap_append]
    exact own_points hopen hafter

def loss : Call where
  step := 3
  metrics := [("train".toList, .object [("loss".toList, .number ⟨"0.5".toList, by decide⟩)])]
  candidateId := none
  ts := ⟨"1.0".toList, isNumeral_one⟩
  distinct := ⟨by decide, ⟨by decide, trivial, trivial⟩, trivial⟩

theorem calls_loss : calls {} [.opened true, .logged true loss] = [loss] := rfl

theorem reopened_other : (run {} [.opened true, .logged true loss, .opened false]).logs false = some loss.points := by
  have h := (metricLog_reopens [.opened true, .logged true loss, .opened false]).2 [.opened true, .logged true loss] false []
    rfl List.not_mem_nil
  rw [calls_loss, own, List.append_nil, List.flatMap_singleton] at h
  exact h

end EvoHarness.Core.Metrics
