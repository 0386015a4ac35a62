import EvoHarness.Evaluation.Report
import EvoHarness.Library.Delimited
import EvoHarness.Library.Exits
import EvoHarness.Library.Floats
import Mathlib.Algebra.BigOperators.Group.Finset.Basic
import Mathlib.Algebra.Order.Archimedean.Basic
import Mathlib.Tactic.Linarith

/-! The remote grader: one call of `grade` against a service that answers anything, and a clock. What is sent is left
out. -/
namespace EvoHarness.Core.Remote
open PyText Hoare Evaluation

inductive BodyFault where
  | valueError
  | recursionError
  | osError (message : Text)
  | httpException

/-- What `urlopen` does: it returns a response, or raises `HTTPError`, an error of the network, or one of
`http.client`. -/
inductive Answer where
  | opened (status : ℕ) (body : Except BodyFault PyValue) (headers : List (Text × Text))
  | httpError (status : ℕ) (body : Except BodyFault PyValue) (headers : List (Text × Text))
  | osError (message : Text)
  | httpException

def Answer.headers : Answer → List (Text × Text)
  | .opened _ _ headers => headers
  | .httpError _ _ headers => headers
  | .osError _ => []
  | .httpException => []

structure HttpReply where
  status : ℕ
  body : PyValue := .none
  headers : List (Text × Text) := []

def header (headers : List (Text × Text)) (name : Text) : Option Text := (headers.find? (·.1 = name)).map (·.2)

/-- Exceptions that are neither of the two of the client nor a `ConnectionError`; `unsendable` is one of a URL. -/
inductive Stray where
  | attributeError
  | httpException
  | overflowError
  | recursionError
  | unsendable
  | valueError

inductive Raised where
  | connectionError (message : Text)
  | evalInfraError (message : Text)
  | evalProtocolError (message : Text)
  | stray (s : Stray)
  | unfinished

def protocolError {α : Type} (message : Text) : Except Raised α := .error (.evalProtocolError message)

def urllibTransport : Answer → Except Raised HttpReply
  | .opened status (.ok body) headers | .httpError status (.ok body) headers => .ok { status, body, headers }
  | .opened _ (.error (.osError message)) _ => .error (.connectionError message)
  | .opened _ (.error .valueError) _ => .error (.stray .valueError)
  | .httpError status (.error .valueError) headers | .httpError status (.error (.osError _)) headers =>
    .ok { status, headers }
  | .opened _ (.error .recursionError) _ | .httpError _ (.error .recursionError) _ => .error (.stray .recursionError)
  | .opened _ (.error .httpException) _ | .httpError _ (.error .httpException) _ => .error (.stray .httpException)
  | .osError message => .error (.connectionError message)
  | .httpException => .error (.stray .httpException)

structure Exchange where
  took : ℚ
  took_nonneg : 0 ≤ took
  answer : Answer

structure Traffic where
  answers : ℕ → Exchange
  passes : ∀ t : ℚ, ∃ n, t ≤ ∑ i ∈ Finset.range n, (answers i).took

def Traffic.starting (first : List Exchange) (always : Answer) : Traffic where
  answers i := first.getD i ⟨1, by decide, always⟩
  passes := by
    have hsum : ∀ n : ℕ, (n : ℚ) ≤
        ∑ i ∈ Finset.range (first.length + n), (first.getD i ⟨1, by decide, always⟩).took := by
      intro n
      induction n with
      | zero => exact_mod_cast Finset.sum_nonneg fun i _ => (first.getD i _).took_nonneg
      | succ n ih =>
        rw [← Nat.add_assoc, Finset.sum_range_succ, List.getD_eq_default _ _ (Nat.le_add_right _ _)]
        push_cast
        linarith
    intro t
    obtain ⟨n, hn⟩ := exists_nat_ge t
    exact ⟨first.length + n, hn.trans (hsum n)⟩

/-- Built-in functions on values that were read: `str`, and `str` for a message, `repr`, `==`, `float` of a text or `none`
where it raises, `f"{x:.0f}"`, and SHA-256. `dumps` is false of a value that is nested too deep to be written. -/
structure Builtins where
  str : PyValue → PyStr
  shown : PyValue → Text
  repr : PyValue → Text
  equal : PyValue → PyValue → Bool
  float : Text → Option FloatValue
  whole : ℚ → Text
  sha256 : Text → Text
  dumps : PyValue → Bool
  reports : EvidenceFormats
  str_str : ∀ s, str (.str s) = s

def object : PyValue → Except Raised (List (PyValue × PyValue))
  | .dict items => .ok items
  | x => if truthy x then .error (.stray .attributeError) else .ok []

def maxSleep : ℚ := 9223372036.854775807

/-- What `time.sleep` raises for a delay that it does not take. -/
def refused : FloatValue → Option Stray
  | .finite q => if q < 0 then some .valueError else if maxSleep < q then some .overflowError else none
  | .nan => some .valueError
  | .infinite negative => some (if negative then .valueError else .overflowError)

/-- What `urllib` sends of a URL that ends in `path`: blanks at the end and the last fragment are left out. -/
def requested (path : Text) : Text := if '#' ∈ path then (rpartitionAt '#' (rstrip path)).1 else rstrip path

def sendable : PyStr → Option Text
  | some t =>
    let path := "/v1/evaluations/".toList ++ t
    if (requested path).all fun c => 33 ≤ c.toNat && c.toNat ≤ 126 then some path else none
  | none => none

structure RemoteEvalConfig where
  pollIntervalS : ℚ := 5
  pollBackoffCapS : ℚ := 30
  jobTimeoutS : ℚ := 900
  maxAttempts : ℕ := 3

structure Meta where
  taskVersion : PyValue
  evalSetVersion : PyValue

inductive Step where
  | ensureMeta
  | submit
  | poll (path : Text) (deadline wait : ℚ) (pinned : Meta)

def Step.name : Step → Text
  | .ensureMeta => "GET /v1/meta".toList
  | .submit => "POST /v1/evaluations".toList
  | .poll path _ _ _ => "GET ".toList ++ path

def Step.transient404 : Step → Bool
  | .poll _ _ _ _ => true
  | _ => false

def checkStatus (step : Step) (reply : HttpReply) : Except Raised HttpReply :=
  if 500 ≤ reply.status then
    .error (.connectionError (step.name ++ " -> HTTP ".toList ++ (toString reply.status).toList))
  else if reply.status = 404 ∧ step.transient404 = true then
    .error (.connectionError (step.name ++ " -> job lost (HTTP 404)".toList))
  else if 400 ≤ reply.status then
    protocolError (step.name ++ " -> HTTP ".toList ++ (toString reply.status).toList)
  else .ok reply

def replyOf (step : Step) (answer : Answer) : Except Raised HttpReply :=
  match urllibTransport answer with
  | .error e => .error e
  | .ok reply => checkStatus step reply

variable (py : Builtins)

def metaOf (d : List (PyValue × PyValue)) : Except Raised Meta :=
  let version := member d "protocol_version".toList
  if equalsOne version = false then
    protocolError ("protocol_version mismatch: expected 1, got ".toList ++ py.repr version)
  else if truthy (member d "task_version".toList) = false then protocolError "/v1/meta missing 'task_version'".toList
  else if truthy (member d "eval_set_version".toList) = false then
    protocolError "/v1/meta missing 'eval_set_version'".toList
  else
    .ok { taskVersion := member d "task_version".toList, evalSetVersion := member d "eval_set_version".toList }

def jobOf (d : List (PyValue × PyValue)) : Except Raised PyStr :=
  if truthy (member d "job_id".toList) = false then protocolError "submit reply missing job_id".toList
  else .ok (py.str (member d "job_id".toList))

/-- The body of a report as `from_json` takes its members. -/
def reportOf (d : List (PyValue × PyValue)) : Evaluation.EvalReport where
  fitness := member d "fitness".toList
  passed := member d "passed".toList
  fault := member d "fault".toList
  visibleMetrics := memberOr d "visible_metrics".toList (.dict [])
  hiddenMetrics := memberOr d "hidden_metrics".toList (.dict [])
  notes := memberOr d "notes".toList (.str (some []))
  structuredFeedback := member d "structured_feedback".toList
  artifactsRef := member d "artifacts_ref".toList
  stdoutLog := memberOr d "stdout_log".toList (.str (some []))
  stderrLog := memberOr d "stderr_log".toList (.str (some []))
  stageReached := memberOr d "stage_reached".toList (.int 3)
  executionTime := memberOr d "execution_time".toList (.float (.finite zero))
  evalCostUsd := memberOr d "eval_cost_usd".toList (.float (.finite zero))
  nUnits := memberOr d "n_units".toList (.int 0)
  trustworthyUnits := member d "trustworthy_units".toList
  sem := memberOr d "sem".toList (.float (.finite zero))
  faultKind := member d "fault_kind".toList

def fromJson (d : List (PyValue × PyValue)) : Except EvidenceFault WireReport :=
  let schema := member d "schema_version".toList
  let missing := ["fitness".toList, "passed".toList].filter fun key => !hasMember d key
  if hasMember d "schema_version".toList ∧ equalsOne schema = false then
    mismatched ("unsupported EvalReport schema: ".toList ++ py.repr schema)
  else if missing ≠ [] then
    mismatched ("EvalReport missing required keys: ".toList ++ py.repr (.list (missing.map fun key => .str (some key))))
  else (reportOf d).fromJson py.reports

def drifted (name : String) (pinned reported : PyValue) : Except Raised WireReport :=
  protocolError (name.toList ++ " drift within run: pinned ".toList ++ py.repr pinned ++ ", job reports ".toList ++
    py.repr reported ++ " (§6: evaluation standards are frozen for the whole run)".toList)

/-- `_accept`; the work directory takes the copy of the reply. -/
def accept (pinned : Meta) (envelope : List (PyValue × PyValue)) : Except Raised WireReport :=
  if py.equal (member envelope "task_version".toList) pinned.taskVersion = false then
    drifted py "task_version" pinned.taskVersion (member envelope "task_version".toList)
  else if py.equal (member envelope "eval_set_version".toList) pinned.evalSetVersion = false then
    drifted py "eval_set_version" pinned.evalSetVersion (member envelope "eval_set_version".toList)
  else
    match member envelope "report".toList with
    | .dict raw =>
      if equalsOne (member raw "schema_version".toList) = false then
        protocolError ("report schema_version ".toList ++ py.repr (member raw "schema_version".toList) ++ " != 1".toList)
      else
        match fromJson py raw with
        | .ok report => if py.dumps (.dict envelope) then .ok report else .error (.stray .recursionError)
        | .error (.typeError message) | .error (.valueError message) =>
          protocolError ("malformed report: ".toList ++ message)
        | .error .recursionError => .error (.stray .recursionError)
        | .error _ => .error (.stray .overflowError)
    | _ => protocolError "done job carries no report object".toList

structure Received where
  attempt : ℕ
  step : Step
  answer : Answer
  clock : ℚ

/-- What the sleep function was asked for: before an attempt, or until the deadline of a job. -/
structure Ask where
  delay : FloatValue
  clock : ℚ
  deadline : Option ℚ

/-- The grader and what it is connected to. Of the past: the answers, what was asked of the sleep function, and for
each attempt that failed its last answer. -/
structure Net where
  traffic : Traffic
  position : ℕ := 0
  clock : ℚ := 0
  pinned : Option Meta := none
  attempt : ℕ := 0
  received : List Received := []
  asked : List Ask := []
  failed : List Received := []

def Net.receive (step : Step) (w : Net) : Net :=
  let clock := w.clock + (w.traffic.answers w.position).took
  { w with
    position := w.position + 1
    clock
    received := w.received ++ [⟨w.attempt, step, (w.traffic.answers w.position).answer, clock⟩] }

def request (step : Step) : Prog Net Raised HttpReply := fun w =>
  (replyOf step (w.traffic.answers w.position).answer, w.receive step)

def Ask.slept (a : Ask) : ℚ :=
  match a.delay with
  | .finite q => if refused (.finite q) = none then q else 0
  | _ => 0

theorem slept_nonneg (a : Ask) : 0 ≤ a.slept := by
  unfold Ask.slept
  split
  · rename_i q _
    split
    · rename_i h
      by_contra hq
      rw [refused, if_pos (not_le.mp hq)] at h
      exact nomatch h
    · exact le_rfl
  · exact le_rfl

def Net.ask (delay : FloatValue) (deadline : Option ℚ) (w : Net) : Net :=
  { w with
    asked := w.asked ++ [⟨delay, w.clock, deadline⟩]
    clock := w.clock + Ask.slept ⟨delay, w.clock, deadline⟩ }

def sleep (delay : FloatValue) (deadline : Option ℚ) : Prog Net Raised Unit := fun w =>
  match refused delay with
  | none => (.ok (), w.ask delay deadline)
  | some s => (.error (.stray s), w.ask delay deadline)

theorem sleep_ends {P : Net → Prop} {Q : Unit → Net → Prop} {E : Raised → Net → Prop} (delay : FloatValue)
    (deadline : Option ℚ) (hok : refused delay = none → ∀ w, P w → Q () (w.ask delay deadline))
    (herror : ∀ s, refused delay = some s → ∀ w, P w → E (.stray s) (w.ask delay deadline)) :
    Prog.Ends P (sleep delay deadline) Q E := by
  intro w hw
  unfold sleep
  cases hr : refused delay with
  | none => exact hok hr w hw
  | some s => exact herror s hr w hw

variable (cfg : RemoteEvalConfig)

def ensureMeta : Prog Net Raised Meta := do
  let w ← Prog.get
  match w.pinned with
  | some pinned => return pinned
  | none =>
    let reply ← request .ensureMeta
    let d ← Prog.ofExcept (object reply.body)
    let pinned ← Prog.ofExcept (metaOf py d)
    Prog.modify fun w => { w with pinned := some pinned }
    return pinned

def submit : Prog Net Raised PyStr := do
  let reply ← request .submit
  let d ← Prog.ofExcept (object reply.body)
  Prog.ofExcept (jobOf py d)

/-- The delay that the reply asks for, if it has one that `float` takes. -/
def retryAfter (headers : List (Text × Text)) : Option FloatValue :=
  match header headers "Retry-After".toList with
  | none => none
  | some t => if t = [] then none else py.float t

def pollLoop (path : Text) (deadline : ℚ) (pinned : Meta) : ℕ → ℚ → Prog Net Raised (List (PyValue × PyValue))
  | 0, _ => Prog.raise .unfinished
  | fuel + 1, wait => do
    let reply ← request (.poll path deadline wait pinned)
    let envelope ← Prog.ofExcept (object reply.body)
    let status := member envelope "status".toList
    if isString "done".toList status ∨ isString "infra_error".toList status then return envelope
    else if ¬(isString "queued".toList status ∨ isString "running".toList status) then
      Prog.ofExcept (protocolError ("unknown job status: ".toList ++ py.repr status))
    else
      let w ← Prog.get
      if deadline ≤ w.clock then
        Prog.raise (.connectionError ("job ".toList ++ path.drop "/v1/evaluations/".length ++ " still ".toList ++
          py.shown status ++ " after ".toList ++ py.whole cfg.jobTimeoutS ++ "s".toList))
      else
        sleep ((retryAfter py reply.headers).getD (.finite wait)) (some deadline)
        pollLoop path deadline pinned fuel (min (wait * 2) cfg.pollBackoffCapS)

def poll (fuel : ℕ) (pinned : Meta) (jobId : PyStr) : Prog Net Raised (List (PyValue × PyValue)) := do
  let w ← Prog.get
  match sendable jobId with
  | none => Prog.raise (.stray .unsendable)
  | some path => pollLoop py cfg path (w.clock + cfg.jobTimeoutS) pinned fuel cfg.pollIntervalS

def gradeOnce (fuel : ℕ) : Prog Net Raised (Meta × List (PyValue × PyValue)) := do
  let pinned ← ensureMeta py
  let jobId ← submit py
  let envelope ← poll py cfg fuel pinned jobId
  return (pinned, envelope)

def idempotencyKey (code : Text) (taskVersion : PyValue) : Text :=
  py.sha256 code ++ ':' :: py.shown taskVersion

/-- The wait before an attempt; `2.0**attempt` has a limit. -/
def backoff (attempt : ℕ) : Prog Net Raised Unit :=
  if attempt = 0 then return ()
  else if 1024 ≤ attempt then Prog.raise (.stray .overflowError)
  else sleep (.finite (min (2 ^ attempt) cfg.pollBackoffCapS)) none

def Net.fail (w : Net) : Net := { w with failed := w.failed ++ w.received.getLast?.toList }

def attempts (code : Text) (fuel : ℕ) : ℕ → Text → Prog Net Raised WireReport
  | 0, lastError => do
    let w ← Prog.get
    let key := (w.pinned.map fun m => idempotencyKey py code m.taskVersion).getD "None".toList
    Prog.raise (.evalInfraError ("evaluation infra failed after ".toList ++ (toString cfg.maxAttempts).toList ++
      " attempts (idempotency_key=".toList ++ key ++ "): ".toList ++ lastError))
  | left + 1, _ => do
    backoff cfg (cfg.maxAttempts - (left + 1))
    Prog.modify fun w => { w with attempt := cfg.maxAttempts - (left + 1) }
    let outcome ← Prog.attempt (gradeOnce py cfg fuel)
    match outcome with
    | .error (.connectionError message) =>
      Prog.modify Net.fail
      attempts code fuel left message
    | .error e => Prog.raise e
    | .ok (pinned, envelope) =>
      if isString "infra_error".toList (member envelope "status".toList) then
        Prog.modify Net.fail
        let error := member envelope "error".toList
        attempts code fuel left (if truthy error then py.shown error else "infra_error (unspecified)".toList)
      else Prog.ofExcept (accept py pinned envelope)

/-- `grade`, without a pregate, for a candidate with this main text. Each job is polled at most this often. -/
def grade (code : Text) (fuel : ℕ) : Prog Net Raised WireReport :=
  attempts py cfg code fuel cfg.maxAttempts "no attempt made".toList

def plain (t : String) : PyValue := .str (some t.toList)

def goodMeta : PyValue :=
  .dict [(plain "protocol_version", .int 1), (plain "task_version", plain "t"), (plain "eval_set_version", plain "e")]

def pinnedMeta : Meta := ⟨plain "t", plain "e"⟩

def goodJob : PyValue := .dict [(plain "job_id", plain "j")]

def running : PyValue := .dict [(plain "status", plain "running")]

def sampleBuiltins : Builtins where
  str | .str s => s | _ => some []
  shown | .str (some t) => t | _ => []
  repr _ := []
  equal | .str s, .str t => s = t | _, _ => false
  float t :=
    if t ≠ [] ∧ t.all (·.isDigit) then some (.finite (t.foldl (fun n c => 10 * n + (c.toNat - 48)) 0 : ℕ)) else none
  whole q := (toString q.floor).toList
  sha256 t := t
  dumps _ := true
  reports :=
    { float := some
      hash := fun t => 'h' :: t
      float_float := float_some
      hash_real := marked_real
      float_zero := some_zero }
  str_str _ := rfl

end EvoHarness.Core.Remote
