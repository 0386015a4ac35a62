import EvoHarness.Envelope
import EvoHarness.Library.JsonMembers
import EvoHarness.Library.Hoare

/-! The envelopes a graph keeps: what is written of one, and what is read back under its hash. -/
namespace EvoHarness.Proof.Envelope
open PyText EvoHarness.Json

inductive StoreFault where
  | keyError (message : Text)
  | jsonDecodeError
  | attributeError
  | typeError
  | valueError (message : Text)
  | graphError (message : Text)
  deriving DecidableEq

/-- A `SourceEnvelope` as `from_dict` makes one: nothing checks the types of its fields. -/
structure Loaded where
  candidateFileSha256 : Value
  imports : List Value
  ctx : Value
  body : Value
  primaryRoot : Value
  expectedRoots : List Value
  strippedCommands : List Value
  schema : Value

def strings (ts : List Text) : List Value := ts.map .string

def ctxDict : Option (List Text) → Value
  | none => .object []
  | some raw => .object [("raw".toList, .array (strings raw))]

def SourceEnvelope.loaded (e : SourceEnvelope) : Loaded where
  candidateFileSha256 := .string e.candidateFileSha256
  imports := strings e.imports
  ctx := ctxDict e.ctx
  body := .string e.body
  primaryRoot := .string e.primaryRoot
  expectedRoots := strings e.expectedRoots
  strippedCommands := strings e.strippedCommands
  schema := .number (.ofNat e.schema)

namespace Loaded

/-- `asdict`, its tuples as the lists they are written as. -/
def asDict (e : Loaded) : List (Text × Value) :=
  [("candidate_file_sha256".toList, e.candidateFileSha256), ("imports".toList, .array e.imports),
    ("ctx".toList, e.ctx), ("body".toList, e.body), ("primary_root".toList, e.primaryRoot),
    ("expected_roots".toList, .array e.expectedRoots), ("stripped_commands".toList, .array e.strippedCommands),
    ("schema_version".toList, e.schema)]

def hashKey : Text := "envelope_hash".toList

def stableHash (sha256 : Text → Text) (value : Value) : Text :=
  sha256 ("leanground:source-envelope:v1\n".toList ++ dumpsCompact value)

variable (sha256 : Text → Text)

def envelopeHash (e : Loaded) : Text := stableHash sha256 (.object e.asDict)

def toDict (e : Loaded) : List (Text × Value) := e.asDict ++ [(hashKey, .string (e.envelopeHash sha256))]

def toJson (e : Loaded) : Text := dumpsCompact (.object (e.toDict sha256))

/-- `tuple(v)`: the members of a list, the keys of a dict, the characters of a text. -/
def tupleOf : Value → Except StoreFault (List Value)
  | .array xs => .ok xs
  | .object ps => .ok (strings (ps.map Prod.fst))
  | .string s => .ok (s.map fun c => .string [c])
  | _ => .error .typeError

def requiredFields : List Text :=
  ["candidate_file_sha256".toList, "imports".toList, "ctx".toList, "body".toList, "primary_root".toList,
    "expected_roots".toList]

def defaultedFields : List Text := ["stripped_commands".toList, "schema_version".toList]

def field (fields : List (Text × Value)) (k : Text) : Except StoreFault Value :=
  match get fields k with
  | some v => .ok v
  | none => .error .typeError

/-- `cls(**fields)` before its checks, the three tuples made of whatever stands there. -/
def construct (fields : List (Text × Value)) : Except StoreFault Loaded := do
  if fields.any fun p => p.1 ∉ requiredFields ++ defaultedFields then throw .typeError
  let imports ← tupleOf (← field fields "imports".toList)
  let expected ← tupleOf (← field fields "expected_roots".toList)
  let stripped ← tupleOf ((get fields "stripped_commands".toList).getD (.array []))
  return { candidateFileSha256 := ← field fields "candidate_file_sha256".toList, imports
           ctx := ← field fields "ctx".toList, body := ← field fields "body".toList
           primaryRoot := ← field fields "primary_root".toList, expectedRoots := expected
           strippedCommands := stripped
           schema := (get fields "schema_version".toList).getD (.number (.ofNat schemaVersion)) }

def numeralOf : Value → Option Numeral
  | .number n => some n
  | .bool true => some (.ofNat 1)
  | .bool false => some (.ofNat 0)
  | _ => none

/-- `==` of values that can be members of a set; `sameNumber` compares the numbers two numerals stand for. -/
def same (sameNumber : Numeral → Numeral → Bool) (a b : Value) : Bool :=
  match a, b with
  | .null, .null => true
  | .string s, .string t => s = t
  | a, b => ((numeralOf a).bind fun m => (numeralOf b).map (sameNumber m)).getD false

def hashable : Value → Bool
  | .array _ => false
  | .object _ => false
  | _ => true

def repeats (sameNumber : Numeral → Numeral → Bool) : List Value → Bool
  | [] => false
  | x :: xs => xs.any (same sameNumber x ·) || repeats sameNumber xs

/-- `__post_init__`. A list or a dict among the roots is refused either way. -/
def postInit (sameNumber : Numeral → Numeral → Bool) (e : Loaded) : Except StoreFault Unit :=
  if e.expectedRoots = [] ∨ (e.expectedRoots.any (same sameNumber e.primaryRoot ·)) = false then
    .error (.valueError "primary_root must be among expected_roots".toList)
  else if e.expectedRoots.any (!hashable ·) then .error .typeError
  else if repeats sameNumber e.expectedRoots then .error (.valueError "expected_roots must not repeat".toList)
  else .ok ()

def claimed (data : List (Text × Value)) : Option Value :=
  match get data hashKey with
  | some .null => none
  | claim => claim

def checkClaim (claim : Option Value) (hash : Text) : Except StoreFault Unit :=
  match claim with
  | none => .ok ()
  | some (.string t) => if t = hash then .ok () else .error (.valueError "envelope_hash does not match the content".toList)
  | some _ => .error (.valueError "envelope_hash does not match the content".toList)

def fromDict (sameNumber : Numeral → Numeral → Bool) : Value → Except StoreFault Loaded
  | .object data => do
    let e ← construct (data.filter (·.1 ≠ hashKey))
    postInit sameNumber e
    checkClaim (claimed data) (e.envelopeHash sha256)
    return e
  | _ => .error .attributeError

end Loaded
open Loaded

structure EnvelopeRow where
  envelopeHash : Text
  envelopeJson : Text
  candidateSha256 : Text
  candidatePath : Option Text
  createdAt : ℚ

def rowOf (table : List EnvelopeRow) (hash : Text) : Option EnvelopeRow := table.find? (·.envelopeHash = hash)

section
variable (sha256 : Text → Text) (sameNumber : Numeral → Numeral → Bool)

def rowFor (e : SourceEnvelope) (candidatePath : Option Text) (now : ℚ) : EnvelopeRow where
  envelopeHash := e.loaded.envelopeHash sha256
  envelopeJson := e.loaded.toJson sha256
  candidateSha256 := e.candidateFileSha256
  candidatePath := candidatePath
  createdAt := now

def insertRow (table : List EnvelopeRow) (row : EnvelopeRow) : List EnvelopeRow :=
  if (rowOf table row.envelopeHash).isSome then table else table ++ [row]

def recordEnvelope (table : List EnvelopeRow) (e : SourceEnvelope) (candidatePath : Option Text) (now : ℚ) :
    Except StoreFault Text × List EnvelopeRow :=
  let row := rowFor sha256 e candidatePath now
  let table := insertRow table row
  -- what stands under the key now
  (if (rowOf table row.envelopeHash).map (·.envelopeJson) = some row.envelopeJson then .ok row.envelopeHash
    else .error (.graphError
      ("envelope ".toList ++ row.envelopeHash ++ " is already stored with different content".toList)), table)

def envelope (table : List EnvelopeRow) (hash : Text) : Except StoreFault Loaded :=
  match rowOf table hash with
  | none => .error (.keyError ("no such envelope: ".toList ++ hash))
  | some row =>
    match loads row.envelopeJson with
    | none => .error .jsonDecodeError
    | some data => do
      let e ← fromDict sha256 sameNumber data
      if e.envelopeHash sha256 ≠ hash then
        throw (.graphError ("envelope ".toList ++ hash ++ " no longer hashes to its key".toList))
      return e

def recorded (calls : List (SourceEnvelope × Option Text × ℚ)) : List EnvelopeRow :=
  calls.foldl (fun table call => (recordEnvelope sha256 table call.1 call.2.1 call.2.2).2) []

def claimedBy (text : Text) : Option Value :=
  match loads text with
  | some (.object data) => claimed data
  | _ => none

end

variable {sha256 : Text → Text} {sameNumber : Numeral → Numeral → Bool} {e e' : SourceEnvelope}

theorem sorted_strings (ts : List Text) : sorted (.array (strings ts)) = .array (strings ts) := by
  rw [sorted, strings, sortedItems_strings]

theorem sorted_ctxDict (ctx : Option (List Text)) : sorted (ctxDict ctx) = ctxDict ctx := by
  cases ctx with
  | none => rw [ctxDict, sorted, sortedMembers, List.mergeSort_nil]
  | some raw => rw [ctxDict, sorted, sortedMembers, sortedMembers, sorted_strings, List.mergeSort_singleton]

theorem distinct_ctxDict (ctx : Option (List Text)) : Distinct (ctxDict ctx) := by
  cases ctx with
  | none => exact ⟨List.nodup_nil, trivial⟩
  | some raw => exact ⟨List.nodup_singleton _, distinctItems_strings raw, trivial⟩

theorem strings_injective : Function.Injective strings := List.map_injective_iff.mpr fun _ _ h => Value.string.inj h

theorem ctxDict_injective : Function.Injective ctxDict := by
  intro a b h
  cases a with
  | none =>
    cases b with
    | none => rfl
    | some raw => cases h
  | some raw =>
    cases b with
    | none => cases h
    | some raw' =>
      injection h with hmembers
      injection hmembers with hmember
      injection hmember with _ hraw
      injection hraw with hitems
      rw [strings_injective hitems]

theorem ofNat_injective : Function.Injective Numeral.ofNat := by
  intro m n h
  have hvalue := congrArg Numeral.toInt? h
  rw [toInt?_ofNat, toInt?_ofNat, Option.some.injEq] at hvalue
  exact Int.ofNat.inj hvalue

theorem loaded_injective : Function.Injective SourceEnvelope.loaded := by
  intro e e' h
  unfold SourceEnvelope.loaded at h
  simp only [Loaded.mk.injEq, Value.string.injEq, Value.number.injEq] at h
  obtain ⟨hsha, himports, hctx, hbody, hprimary, hexpected, hstripped, hschema⟩ := h
  cases e
  cases e'
  simp only [SourceEnvelope.mk.injEq]
  exact ⟨hsha, strings_injective himports, ctxDict_injective hctx, hbody, hprimary, strings_injective hexpected,
    strings_injective hstripped, ofNat_injective hschema⟩

def withClaim (sha256 : Text → Text) (e : SourceEnvelope) (claims : Bool) : List (Text × Value) :=
  if claims = true then e.loaded.toDict sha256 else e.loaded.asDict

def dictKeys (claims : Bool) : List Text :=
  requiredFields ++ defaultedFields ++ if claims = true then [hashKey] else []

theorem perm_keys (sha256 : Text → Text) (e : SourceEnvelope) (claims : Bool) :
    ((withClaim sha256 e claims).map (·.1)).Perm (dictKeys claims) := by
  cases claims with
  | false =>
    have hkeys : (withClaim sha256 e false).map (·.1) = (e.loaded.asDict).map (·.1) := rfl
    rw [hkeys]
    exact List.Perm.refl _
  | true => exact List.Perm.refl _

theorem nodup_keys (sha256 : Text → Text) (e : SourceEnvelope) (claims : Bool) :
    ((withClaim sha256 e claims).map (·.1)).Nodup := by
  rw [(perm_keys sha256 e claims).nodup_iff]
  cases claims with
  | false => decide
  | true => decide

theorem distinct_withClaim (sha256 : Text → Text) (e : SourceEnvelope) (claims : Bool) :
    Distinct (.object (withClaim sha256 e claims)) := by
  rw [distinct_object]
  refine ⟨nodup_keys sha256 e claims, ?_⟩
  have hfields : ∀ p ∈ e.loaded.asDict, Distinct p.2 := by
    unfold Loaded.asDict
    simp only [List.forall_mem_cons]
    exact ⟨trivial, distinctItems_strings _, distinct_ctxDict _, trivial, trivial, distinctItems_strings _,
      distinctItems_strings _, trivial, List.forall_mem_nil _⟩
  cases claims with
  | false => exact hfields
  | true =>
    intro p hp
    cases List.mem_append.mp hp with
    | inl hp => exact hfields p hp
    | inr hp =>
      rw [List.mem_singleton.mp hp]
      trivial

theorem get_filter {ps : List (Text × Value)} {k : Text} (hk : k ≠ hashKey) :
    get (ps.filter (·.1 ≠ hashKey)) k = get ps k := by
  unfold Json.get
  rw [List.find?_filter]
  congr 2
  funext p
  by_cases hp : p.1 = k
  · simp [hp, hk]
  · simp [hp]

theorem get_field {claims : Bool} {k : Text} {v : Value} (hmem : (k, v) ∈ withClaim sha256 e claims) (hk : k ≠ hashKey)
    (hv : sorted v = v) : get ((arranged (withClaim sha256 e claims)).filter (·.1 ≠ hashKey)) k = some v := by
  rw [get_filter hk, get_arranged (nodup_keys sha256 e claims), get_of_mem (nodup_keys sha256 e claims) hmem, Option.map_some, hv]

theorem mem_withClaim {claims : Bool} {p : Text × Value} (h : p ∈ e.loaded.asDict) : p ∈ withClaim sha256 e claims := by
  cases claims with
  | false => exact h
  | true => exact List.mem_append_left _ h

theorem construct_written (sha256 : Text → Text) (e : SourceEnvelope) (claims : Bool) :
    construct ((arranged (withClaim sha256 e claims)).filter (·.1 ≠ hashKey)) = .ok e.loaded := by
  have hknown : ((arranged (withClaim sha256 e claims)).filter (·.1 ≠ hashKey)).any
      (fun p => p.1 ∉ requiredFields ++ defaultedFields) = false := by
    rw [List.any_eq_false]
    intro p hp
    rw [List.mem_filter, decide_eq_true_eq] at hp
    have hkey : p.1 ∈ dictKeys claims := by
      rw [← (perm_keys sha256 e claims).mem_iff, ← (keys_arranged _).mem_iff]
      exact List.mem_map_of_mem hp.1
    unfold dictKeys at hkey
    rw [decide_eq_true_eq, not_not]
    cases List.mem_append.mp hkey with
    | inl hkey => exact hkey
    | inr hkey =>
      split at hkey
      · exact absurd (List.mem_singleton.mp hkey) hp.2
      · cases hkey
  have hget : ∀ (i : ℕ) (k : Text) (v : Value), e.loaded.asDict[i]? = some (k, v) → k ≠ hashKey → sorted v = v →
      get ((arranged (withClaim sha256 e claims)).filter (·.1 ≠ hashKey)) k = some v :=
    fun i k v hi hk hv => get_field (mem_withClaim (List.mem_of_getElem? hi)) hk hv
  unfold construct field
  rw [hknown, hget 1 "imports".toList (.array e.loaded.imports) rfl (by decide) (sorted_strings _),
    hget 5 "expected_roots".toList (.array e.loaded.expectedRoots) rfl (by decide) (sorted_strings _),
    hget 6 "stripped_commands".toList (.array e.loaded.strippedCommands) rfl (by decide) (sorted_strings _),
    hget 0 "candidate_file_sha256".toList e.loaded.candidateFileSha256 rfl (by decide) (sorted_string _),
    hget 2 "ctx".toList e.loaded.ctx rfl (by decide) (sorted_ctxDict _),
    hget 3 "body".toList e.loaded.body rfl (by decide) (sorted_string _),
    hget 4 "primary_root".toList e.loaded.primaryRoot rfl (by decide) (sorted_string _),
    hget 7 "schema_version".toList e.loaded.schema rfl (by decide) (sorted_number _)]
  rfl

theorem same_string (s t : Text) : same sameNumber (.string s) (.string t) = decide (s = t) := rfl

theorem repeats_strings {ts : List Text} (h : ts.Nodup) : repeats sameNumber (strings ts) = false := by
  induction ts with
  | nil => rfl
  | cons t ts ih =>
    rw [List.nodup_cons] at h
    have hcons : repeats sameNumber (strings (t :: ts)) =
        ((strings ts).any (same sameNumber (.string t) ·) || repeats sameNumber (strings ts)) := rfl
    rw [hcons, ih h.2, Bool.or_false, List.any_eq_false]
    intro v hv hsame
    obtain ⟨u, hu, huv⟩ := List.mem_map.mp hv
    rw [← huv, same_string, decide_eq_true_eq] at hsame
    rw [← hsame] at hu
    exact h.1 hu

theorem postInit_loaded (e : SourceEnvelope) : postInit sameNumber e.loaded = .ok () := by
  have hmem : Value.string e.primaryRoot ∈ strings e.expectedRoots := List.mem_map_of_mem e.rooted
  have hany : (strings e.expectedRoots).any (same sameNumber (.string e.primaryRoot) ·) = true := by
    rw [List.any_eq_true]
    refine ⟨_, hmem, ?_⟩
    rw [same_string, decide_eq_true_eq]
  have hhash : (strings e.expectedRoots).any (!hashable ·) = false := by
    rw [List.any_eq_false]
    intro v hv
    obtain ⟨u, -, huv⟩ := List.mem_map.mp hv
    rw [← huv]
    exact Bool.false_ne_true
  have hexpected : e.loaded.expectedRoots = strings e.expectedRoots := rfl
  have hprimary : e.loaded.primaryRoot = .string e.primaryRoot := rfl
  rw [postInit, hexpected, hprimary, hany, hhash, repeats_strings e.distinct, if_neg, if_neg, if_neg]
  · exact Bool.false_ne_true
  · exact Bool.false_ne_true
  · intro h
    cases h with
    | inl hnil =>
      rw [hnil] at hmem
      cases hmem
    | inr hfalse => cases hfalse

theorem claimed_arranged (e : SourceEnvelope) (claims : Bool) : claimed (arranged (withClaim sha256 e claims)) =
    if claims = true then some (.string (e.loaded.envelopeHash sha256)) else none := by
  unfold claimed
  cases claims with
  | false =>
    have hnone : get (withClaim sha256 e false) hashKey = none := by
      have hkeys : hashKey ∉ (withClaim sha256 e false).map (·.1) := by
        rw [(perm_keys sha256 e false).mem_iff]
        decide
      unfold Json.get
      rw [Option.map_eq_none_iff, List.find?_eq_none]
      intro p hp heq
      rw [decide_eq_true_eq] at heq
      exact hkeys (heq ▸ List.mem_map_of_mem hp)
    rw [get_arranged (nodup_keys sha256 e false), hnone]
    rfl
  | true =>
    have hmem : (hashKey, Value.string (e.loaded.envelopeHash sha256)) ∈ withClaim sha256 e true :=
      List.mem_append_right _ (List.mem_singleton_self _)
    rw [get_arranged (nodup_keys sha256 e true), get_of_mem (nodup_keys sha256 e true) hmem, Option.map_some, sorted_string]
    rfl

theorem fromDict_written (e : SourceEnvelope) (claims : Bool) :
    fromDict sha256 sameNumber (.object (arranged (withClaim sha256 e claims))) = .ok e.loaded := by
  have hclaim : checkClaim (claimed (arranged (withClaim sha256 e claims))) (e.loaded.envelopeHash sha256) = .ok () := by
    rw [claimed_arranged]
    cases claims with
    | false => rfl
    | true => exact if_pos rfl
  rw [fromDict, construct_written]
  simp only [bind, Except.bind, postInit_loaded, hclaim]
  rfl

theorem loads_written (e : SourceEnvelope) (claims : Bool) :
    loads (dumpsCompact (.object (withClaim sha256 e claims))) = some (.object (arranged (withClaim sha256 e claims))) := by
  rw [dumpsCompact_eq_textOf, loads_textOf (List.forall_mem_nil _) (distinct_withClaim sha256 e claims) ⟨_, rfl⟩,
    sorted_object_eq]

theorem envelope_written {table : List EnvelopeRow} {row : EnvelopeRow} {claims : Bool}
    (hrow : rowOf table (e.loaded.envelopeHash sha256) = some row)
    (hjson : row.envelopeJson = dumpsCompact (.object (withClaim sha256 e claims))) :
    envelope sha256 sameNumber table (e.loaded.envelopeHash sha256) = .ok e.loaded := by
  unfold envelope
  rw [hrow]
  simp only [hjson, loads_written, fromDict_written, bind, Except.bind]
  rw [if_neg]
  · rfl
  · exact not_not.mpr rfl

theorem stableHash_injective (hsha : Function.Injective sha256) {v w : Value} (h : stableHash sha256 v = stableHash sha256 w) :
    dumpsCompact v = dumpsCompact w :=
  List.append_cancel_left (hsha h)

theorem envelopeHash_injective (hsha : Function.Injective sha256)
    (h : e.loaded.envelopeHash sha256 = e'.loaded.envelopeHash sha256) : e = e' := by
  have htexts := stableHash_injective hsha h
  have hsorted := sorted_of_dumpsCompact (distinct_withClaim sha256 e false)
    (distinct_withClaim sha256 e' false) ⟨_, rfl⟩ ⟨_, rfl⟩ htexts
  rw [sorted_object_eq, sorted_object_eq, Value.object.injEq] at hsorted
  have hread := construct_written sha256 e false
  rw [hsorted, construct_written] at hread
  exact loaded_injective (Except.ok.inj hread).symm

variable {table : List EnvelopeRow} {path : Option Text} {now : ℚ} {digest : Text}

def Kept (sha256 : Text → Text) (table : List EnvelopeRow) : Prop :=
  ∀ row ∈ table, ∃ e : SourceEnvelope,
    row.envelopeHash = e.loaded.envelopeHash sha256 ∧ row.envelopeJson = e.loaded.toJson sha256

theorem rowOf_spec {row : EnvelopeRow} (h : rowOf table digest = some row) : row ∈ table ∧ row.envelopeHash = digest := by
  refine ⟨List.mem_of_find?_eq_some h, ?_⟩
  simpa using List.find?_some h

theorem insertRow_of_some {row : EnvelopeRow} (h : (rowOf table row.envelopeHash).isSome = true) :
    insertRow table row = table := if_pos h

theorem rowOf_insertRow {row : EnvelopeRow} (hfree : rowOf table row.envelopeHash = none) :
    rowOf (insertRow table row) row.envelopeHash = some row := by
  have hinsert : insertRow table row = table ++ [row] := by
    rw [insertRow, hfree]
    rfl
  unfold rowOf at hfree
  rw [hinsert, rowOf, List.find?_append, hfree, Option.none_or, List.find?_cons_of_pos (by simp)]

theorem recordEnvelope_row (h : (recordEnvelope sha256 table e path now).1 = .ok digest) :
    digest = e.loaded.envelopeHash sha256 ∧
      ∃ row, rowOf (recordEnvelope sha256 table e path now).2 digest = some row ∧
        row.envelopeJson = e.loaded.toJson sha256 := by
  unfold recordEnvelope at h ⊢
  dsimp only at h ⊢
  split at h
  · rename_i hstored
    have hdigest := Except.ok.inj h
    obtain ⟨row, hrow, hjson⟩ := Option.map_eq_some_iff.mp hstored
    refine ⟨hdigest.symm, row, ?_, hjson⟩
    rw [← hdigest]
    exact hrow
  · cases h

theorem envelope_recorded (h : (recordEnvelope sha256 table e path now).1 = .ok digest) :
    envelope sha256 sameNumber (recordEnvelope sha256 table e path now).2 digest = .ok e.loaded := by
  obtain ⟨hdigest, row, hrow, hjson⟩ := recordEnvelope_row h
  rw [hdigest] at hrow ⊢
  have hwritten : row.envelopeJson = dumpsCompact (.object (withClaim sha256 e true)) := hjson
  exact envelope_written hrow hwritten

theorem recordEnvelope_again (h : (recordEnvelope sha256 table e path now).1 = .ok digest) (path' : Option Text) (now' : ℚ) :
    recordEnvelope sha256 (recordEnvelope sha256 table e path now).2 e path' now' =
      (.ok digest, (recordEnvelope sha256 table e path now).2) := by
  obtain ⟨hdigest, row, hrow, hjson⟩ := recordEnvelope_row h
  rw [hdigest] at hrow ⊢
  generalize (recordEnvelope sha256 table e path now).2 = table' at hrow ⊢
  have hinsert : insertRow table' (rowFor sha256 e path' now') = table' := by
    apply insertRow_of_some
    rw [rowFor, hrow]
    rfl
  have hstored : (rowOf table' (e.loaded.envelopeHash sha256)).map (·.envelopeJson) = some (e.loaded.toJson sha256) := by
    rw [hrow, Option.map_some, hjson]
  unfold recordEnvelope
  simp only [hinsert]
  exact Prod.ext (if_pos hstored) rfl

theorem kept_recordEnvelope (h : Kept sha256 table) : Kept sha256 (recordEnvelope sha256 table e path now).2 := by
  have htable : (recordEnvelope sha256 table e path now).2 = insertRow table (rowFor sha256 e path now) := rfl
  rw [htable, insertRow]
  split
  · exact h
  · intro row hrow
    cases List.mem_append.mp hrow with
    | inl hold => exact h row hold
    | inr hnew =>
      rw [List.mem_singleton.mp hnew]
      exact ⟨e, rfl, rfl⟩

theorem recordEnvelope_ok (hsha : Function.Injective sha256) (h : Kept sha256 table) :
    (recordEnvelope sha256 table e path now).1 = .ok (e.loaded.envelopeHash sha256) := by
  have hstored : (rowOf (insertRow table (rowFor sha256 e path now)) (e.loaded.envelopeHash sha256)).map (·.envelopeJson) =
      some (e.loaded.toJson sha256) := by
    cases hrow : rowOf table (e.loaded.envelopeHash sha256) with
    | none =>
      have hnew : rowOf (insertRow table (rowFor sha256 e path now)) (e.loaded.envelopeHash sha256) =
          some (rowFor sha256 e path now) := rowOf_insertRow hrow
      rw [hnew]
      rfl
    | some row =>
      rw [insertRow_of_some (by rw [rowFor, hrow]; rfl), hrow, Option.map_some]
      -- the envelope that stands there has the same hash
      obtain ⟨hmem, hkey⟩ := rowOf_spec hrow
      obtain ⟨e', hhash, hjson⟩ := h row hmem
      rw [hkey] at hhash
      rw [hjson, envelopeHash_injective hsha hhash]
  exact if_pos hstored

theorem kept_recorded (calls : List (SourceEnvelope × Option Text × ℚ)) : Kept sha256 (recorded sha256 calls) := by
  have hfold : ∀ table, Kept sha256 table →
      Kept sha256 (calls.foldl (fun table call => (recordEnvelope sha256 table call.1 call.2.1 call.2.2).2) table) := by
    induction calls with
    | nil => exact fun _ h => h
    | cons call calls ih => exact fun table h => ih _ (kept_recordEnvelope h)
  exact hfold [] (List.forall_mem_nil _)

theorem fromDict_claim {data : Value} {l : Loaded} (h : fromDict sha256 sameNumber data = .ok l) :
    ∃ members, data = .object members ∧
      ∀ claim, claimed members = some claim → claim = .string (l.envelopeHash sha256) := by
  cases data with
  | object members =>
    refine ⟨members, rfl, ?_⟩
    intro claim hclaim
    unfold fromDict at h
    obtain ⟨l', -, hrest⟩ := Hoare.ok_of_bind h
    obtain ⟨_, _, hrest⟩ := Hoare.ok_of_bind hrest
    obtain ⟨_, hcheck, hrest⟩ := Hoare.ok_of_bind hrest
    have hsame : l' = l := Except.ok.inj hrest
    rw [hclaim, hsame] at hcheck
    unfold checkClaim at hcheck
    split at hcheck
    · rename_i hnone
      cases hnone
    · rename_i t ht
      split at hcheck
      · rename_i heq
        rw [Option.some.inj ht, heq]
      · cases hcheck
    · cases hcheck
  | _ => cases h

/-- What is returned under a key hashes to it, and the stored text claimed that hash if it claimed one. -/
theorem envelope_sound {l : Loaded} (h : envelope sha256 sameNumber table digest = .ok l) :
    l.envelopeHash sha256 = digest ∧ ∃ row, rowOf table digest = some row ∧
      ∀ claim, claimedBy row.envelopeJson = some claim → claim = .string digest := by
  unfold envelope at h
  split at h
  · cases h
  · rename_i row hrow
    split at h
    · cases h
    · rename_i data hdata
      obtain ⟨l', hl', hrest⟩ := Hoare.ok_of_bind h
      split at hrest
      · cases hrest
      · rename_i hhash
        have hsame : l' = l := Except.ok.inj hrest
        rw [not_not] at hhash
        rw [← hsame]
        refine ⟨hhash, row, hrow, ?_⟩
        obtain ⟨members, hobject, hclaim⟩ := fromDict_claim hl'
        unfold claimedBy
        rw [hdata, hobject, ← hhash]
        exact hclaim

/-- Envelopes are kept without loss, and nothing is returned under a hash that is not its own. -/
structure Persists (sha256 : Text → Text) (sameNumber : Numeral → Numeral → Bool) : Prop where
  /-- Whatever the table, what `record_envelope` took is read back, and taking it again changes nothing. -/
  reads : ∀ table e path now digest, (recordEnvelope sha256 table e path now).1 = .ok digest →
    envelope sha256 sameNumber (recordEnvelope sha256 table e path now).2 digest = .ok e.loaded ∧
      ∀ path' now', recordEnvelope sha256 (recordEnvelope sha256 table e path now).2 e path' now' =
        (.ok digest, (recordEnvelope sha256 table e path now).2)
  /-- It takes every envelope, after any calls. -/
  takes : ∀ calls e path now,
    (recordEnvelope sha256 (recorded sha256 calls) e path now).1 = .ok (e.loaded.envelopeHash sha256)
  /-- Whatever is stored, what is returned has the hash it was asked for, and so has the claim, if there is one. -/
  sound : ∀ table digest l, envelope sha256 sameNumber table digest = .ok l → l.envelopeHash sha256 = digest ∧
    ∃ row, rowOf table digest = some row ∧ ∀ claim, claimedBy row.envelopeJson = some claim → claim = .string digest
  same : ∀ e e' : SourceEnvelope, e.loaded.envelopeHash sha256 = e'.loaded.envelopeHash sha256 → e = e'

theorem envelope_persistence (hsha : Function.Injective sha256) : Persists sha256 sameNumber where
  reads _ _ _ _ _ h := ⟨envelope_recorded h, recordEnvelope_again h⟩
  takes calls _ _ _ := recordEnvelope_ok hsha (kept_recorded calls)
  sound _ _ _ h := envelope_sound h
  same _ _ h := envelopeHash_injective hsha h

theorem envelope_persistence_plain : Persists id (fun m n => decide (m = n)) :=
  envelope_persistence Function.injective_id

def shortEnvelope : SourceEnvelope where
  candidateFileSha256 := "00".toList
  imports := []
  ctx := none
  body := "theorem a : True := trivial".toList
  primaryRoot := ['a']
  expectedRoots := [['a']]
  rooted := mem_oneRoot ['a']
  distinct := nodup_oneRoot ['a']

def unclaimedRow : EnvelopeRow where
  envelopeHash := shortEnvelope.loaded.envelopeHash id
  envelopeJson := dumpsCompact (.object shortEnvelope.loaded.asDict)
  candidateSha256 := "00".toList
  candidatePath := none
  createdAt := 0

theorem unclaimed_returned : ¬ ∀ (sha256 : Text → Text) (sameNumber : Numeral → Numeral → Bool),
    Function.Injective sha256 → ∀ table digest l, envelope sha256 sameNumber table digest = .ok l → l.envelopeHash sha256 = digest ∧
      ∃ row, rowOf table digest = some row ∧ claimedBy row.envelopeJson = some (.string digest) := by
  intro h
  have hrow : rowOf [unclaimedRow] (shortEnvelope.loaded.envelopeHash id) = some unclaimedRow :=
    List.find?_cons_of_pos (decide_eq_true rfl)
  have hjson : unclaimedRow.envelopeJson = dumpsCompact (.object (withClaim id shortEnvelope false)) := rfl
  have hread : envelope id (fun m n => decide (m = n)) [unclaimedRow] (shortEnvelope.loaded.envelopeHash id) =
      .ok shortEnvelope.loaded := envelope_written hrow hjson
  obtain ⟨-, row, hfound, hclaim⟩ := h id _ Function.injective_id _ _ _ hread
  rw [hrow, Option.some.injEq] at hfound
  rw [← hfound, hjson, claimedBy, loads_written] at hclaim
  simp only [claimed_arranged, Bool.false_eq_true, if_false, reduceCtorEq] at hclaim

end EvoHarness.Proof.Envelope
