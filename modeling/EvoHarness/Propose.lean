import EvoHarness.Sketch
import EvoHarness.Identity
import EvoHarness.Library.Finditer

/-! Reading a model's reply as a decomposition, or refusing it. -/
namespace EvoHarness.Proof
open PyText

/-- What `json.loads` gives. Every value but a string carries the text `str` shows of it. -/
inductive Json where
  | string (t : Text)
  | array (shown : Text) (items : List Json)
  | object (shown : Text) (fields : List (Text × Json))
  | other (shown : Text)

def Json.str : Json → Text
  | .string t => t
  | .array shown _ => shown
  | .object shown _ => shown
  | .other shown => shown

def fieldText (fields : List (Text × Json)) (key : Text) : Text :=
  ((Dict.get fields key).map Json.str).getD []

def fence : Text := "```".toList

/-- A fenced block: the opening fence, perhaps tagged `json`, white space with a line
break in it, and what stands between the last such break and the next fence. -/
def fencedBlock (t : Text) : Option (Text × Text) :=
  if fence.isPrefixOf t then
    let t := t.drop fence.length
    let t := if "json".toList.isPrefixOf t then t.drop 4 else t
    let blanks := t.takeWhile isSpace
    if '\n' ∈ blanks then
      let kept := (blanks.reverse.takeWhile (· ≠ '\n')).reverse
      cut fence (kept ++ t.dropWhile isSpace)
    else none
  else none

def lastBlock (reply : Text) : Text := (finditer fencedBlock reply).getLast?.getD reply

def usableName : Text → Bool
  | [] => false
  | c :: t =>
    let letter (c : Char) : Bool := ('A' ≤ c ∧ c ≤ 'Z') ∨ ('a' ≤ c ∧ c ≤ 'z') ∨ c = '_'
    letter c && t.all fun c => letter c || ('0' ≤ c ∧ c ≤ '9') || c = '\'' || c = '.'

def proposalError {α : Type} (message : String) : Except Text α := .error message.toList

def parseLemma (parentName : Text) (seen : List Text) (item : Json) : Except Text SubgoalSpec :=
  match item with
  | .object _ fields =>
    let name := strip (fieldText fields "name".toList)
    let signature := strip (fieldText fields "signature".toList)
    if usableName name = false then .error ("unusable lemma name: '".toList ++ name ++ ['\''])
    else if name = parentName then proposalError "a lemma may not reuse the parent's name"
    else if name ∈ seen then .error ("duplicate lemma name: ".toList ++ name)
    else if signature = [] then .error ("lemma ".toList ++ name ++ " has no signature".toList)
    else if contains ":=".toList signature then
      .error ("lemma ".toList ++ name ++ " signature must stop before `:=`".toList)
    else .ok { name, identity := [], signature }
  | _ => proposalError "each lemma must be an object"

def parseLemmas (parentName : Text) : List Text → List Json → Except Text (List SubgoalSpec)
  | _, [] => .ok []
  | seen, item :: items =>
    match parseLemma parentName seen item with
    | .error e => .error e
    | .ok spec =>
      match parseLemmas parentName (spec.name :: seen) items with
      | .error e => .error e
      | .ok specs => .ok (spec :: specs)

/-- The payload's `lemmas`, when they are a list with something in it. -/
def lemmasOf (fields : List (Text × Json)) : Option (List Json) :=
  match Dict.get fields "lemmas".toList with
  | some (.array _ (item :: items)) => some (item :: items)
  | _ => none

/-- The payload's `parent_body`, when it is a string that is not blank. -/
def bodyOf (fields : List (Text × Json)) : Option Text :=
  match Dict.get fields "parent_body".toList with
  | some (.string body) => if isBlank body then none else some body
  | _ => none

/-- `loads` is `json.loads`; on malformed text it gives the error's message. -/
def parseProposal (loads : Text → Except Text Json) (text : Text) (goal : Goal) (parentName : Text)
    (preamble : Text := []) : Except Text Sketch :=
  match loads (lastBlock text) with
  | .error e => .error ("reply is not json: ".toList ++ e)
  | .ok (.object _ fields) =>
    match lemmasOf fields, bodyOf fields with
    | none, _ => proposalError "`lemmas` must be a non-empty list"
    | some _, none => proposalError "`parent_body` must be a non-empty string"
    | some lemmas, some body =>
      if contains "sorry".toList body then proposalError "`parent_body` contains `sorry`"
      else match parseLemmas parentName [] lemmas with
        | .error e => .error e
        | .ok specs => .ok
          { parentName, parentSignature := goal.statement, parentBody := strip body, subgoals := specs
            preamble }
  | .ok _ => proposalError "reply must be a json object"

def Sketch.withIdentities (hasher : Text → Text) (k : Sketch) : Sketch :=
  { k with subgoals := k.subgoals.map fun p => { p with identity := hasher p.signature } }

/-- `ModelDecompositionSource.propose` on one reply: a sketch, or nothing if it is refused. -/
def proposeFrom (loads : Text → Except Text Json) (hasher : Text → Text) (parentName preamble : Text)
    (reply : Text) (goal : Goal) : Option Sketch :=
  match parseProposal loads reply goal parentName preamble with
  | .ok k => some (k.withIdentities hasher)
  | .error _ => none

def Sketch.names (k : Sketch) : List Text := k.subgoals.map (·.name) ++ [k.parentName]

theorem parseLemma_ok {parentName : Text} {seen : List Text} {item : Json} {spec : SubgoalSpec}
    (h : parseLemma parentName seen item = .ok spec) : spec.name ≠ parentName ∧ spec.name ∉ seen := by
  unfold parseLemma at h
  cases item with
  | object shown fields =>
    simp only at h
    repeat' split at h
    all_goals first
      | exact ⟨by simpa [← Except.ok.inj h], by simpa [← Except.ok.inj h]⟩
      | simp [proposalError] at h
  | _ => simp [proposalError] at h

theorem parseLemmas_ok {parentName : Text} {seen : List Text} {items : List Json}
    {specs : List SubgoalSpec} (h : parseLemmas parentName seen items = .ok specs) :
    (specs.map (·.name)).Nodup ∧ ∀ n ∈ specs.map (·.name), n ≠ parentName ∧ n ∉ seen := by
  induction items generalizing seen specs with
  | nil =>
    obtain rfl := Except.ok.inj h
    simp
  | cons item items ih =>
    unfold parseLemmas at h
    split at h
    · simp at h
    · next spec hspec =>
      split at h
      · simp at h
      · next rest hrest =>
        obtain rfl := Except.ok.inj h
        obtain ⟨hnd, hout⟩ := ih hrest
        obtain ⟨hparent, hseen⟩ := parseLemma_ok hspec
        refine ⟨?_, ?_⟩
        · rw [List.map_cons, List.nodup_cons]
          exact ⟨fun hmem => (hout _ hmem).2 (List.mem_cons_self ..), hnd⟩
        · intro n hn
          rcases List.mem_cons.mp hn with rfl | hn
          · exact ⟨hparent, hseen⟩
          · exact ⟨(hout n hn).1, fun hs => (hout n hn).2 (List.mem_cons_of_mem _ hs)⟩

theorem parseProposal_names {loads : Text → Except Text Json} {text parentName preamble : Text} {goal : Goal}
    {k : Sketch} (h : parseProposal loads text goal parentName preamble = .ok k) : k.names.Nodup := by
  unfold parseProposal at h
  repeat' split at h
  all_goals first
    | simp [proposalError] at h; done
    | skip
  next specs hspecs =>
    obtain ⟨hnd, hout⟩ := parseLemmas_ok hspecs
    obtain rfl := Except.ok.inj h
    rw [Sketch.names, List.nodup_append]
    refine ⟨hnd, List.nodup_singleton _, ?_⟩
    intro a ha b hb
    rw [List.mem_singleton.mp hb]
    exact (hout a ha).1

end EvoHarness.Proof
