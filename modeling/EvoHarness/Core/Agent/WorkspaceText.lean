import EvoHarness.Core.Agent.ReadState
import EvoHarness.Core.GenomeEdits
import EvoHarness.Library.Bytes
import EvoHarness.Library.Occurrences

/-! What the workspace tools make of a call's arguments and of the bytes of one file. Text mode is
that of POSIX: every line end is read as a line feed, and what is written is not translated. -/
namespace EvoHarness.Core.Agent
open PyText PyBytes Json Occurrences

/-- `_validate_exact_arguments(arguments, expected)`; the names are in order. -/
def validateExact (expected : List Text) (arguments : List (Text × Value)) : Except AgentToolError Unit :=
  let missing := expected.filter fun name => (get arguments name).isNone
  let extra := ((arguments.map (·.1)).filter (· ∉ expected)).mergeSort fun a b => decide (a ≤ b)
  if missing = [] ∧ extra = [] then .ok ()
  else
    invalidArguments ("invalid arguments: ".toList ++ join ", ".toList
      ((if missing = [] then [] else ["missing=".toList ++ listed missing]) ++
        (if extra = [] then [] else ["unexpected=".toList ++ listed extra])))

/-- `_required_string(arguments, name, allow_empty=True)` -/
def requiredText (arguments : List (Text × Value)) (name : Text) : Except AgentToolError Text :=
  match get arguments name with
  | some (.string t) => .ok t
  | _ => invalidArguments (name ++ " must be a string".toList)

theorem requiredString_ne {arguments : List (Text × Value)} {name t : Text}
    (h : requiredString arguments name = .ok t) : t ≠ [] := by
  unfold requiredString at h
  split at h
  · split at h
    · exact nomatch h
    · rw [← Except.ok.inj h]
      assumption
  · exact nomatch h

/-- `_required_string(arguments, name)`, with what it promises. -/
def requiredNonEmpty (arguments : List (Text × Value)) (name : Text) : Except AgentToolError { t : Text // t ≠ [] } :=
  match h : requiredString arguments name with
  | .error e => .error e
  | .ok t => .ok ⟨t, requiredString_ne h⟩

/-- `_read_utf8(path, raw_path, max_file_bytes)`, for a file of these bytes. -/
def readUtf8 (maxFileBytes : ℕ) (rawPath : Text) (file : Bytes) : Except AgentToolError Text :=
  if maxFileBytes < file.length then
    .error ("output-too-large".toList,
      "file exceeds ".toList ++ decimal maxFileBytes ++ " bytes: ".toList ++ rawPath)
  else
    match decode file with
    | none => .error ("not-text".toList, "file is not UTF-8 text: ".toList ++ rawPath)
    | some text =>
      let content := universalNewlines text
      if Char.ofNat 0 ∈ content then .error ("not-text".toList, "file is not text: ".toList ++ rawPath)
      else .ok content

/-- The bytes that `_atomic_write` puts in the place of the file. -/
def encodeWithin (maxWriteBytes : ℕ) (content : Text) : Except AgentToolError Bytes :=
  if maxWriteBytes < (encode content).length then
    .error ("output-too-large".toList, "file exceeds ".toList ++ decimal maxWriteBytes ++ " bytes".toList)
  else .ok (encode content)

theorem encodeWithin_ok {limit : ℕ} {content : Text} {file : Bytes} (h : encodeWithin limit content = .ok file) :
    file = encode content ∧ file.length ≤ limit := by
  unfold encodeWithin at h
  split at h
  · exact nomatch h
  · cases h
    exact ⟨rfl, by omega⟩

theorem readUtf8_ok {limit : ℕ} {rawPath content : Text} {file : Bytes}
    (h : readUtf8 limit rawPath file = .ok content) :
    ∃ text, file = encode text ∧ content = universalNewlines text ∧ file.length ≤ limit ∧ Char.ofNat 0 ∉ content := by
  unfold readUtf8 at h
  split at h
  · exact nomatch h
  · cases hdecode : decode file with
    | none => rw [hdecode] at h; exact nomatch h
    | some text =>
      rw [hdecode] at h
      dsimp only at h
      split at h
      · exact nomatch h
      · cases h
        exact ⟨text, (encode_of_decode hdecode).symm, rfl, by omega, by assumption⟩

structure WorkspaceEditTool where
  maxWriteBytes : ℕ := 2 * 1024 * 1024
  maxWriteBytes_pos : 1 ≤ maxWriteBytes := by decide

structure EditRequest where
  rawPath : Text
  oldText : Text
  newText : Text
  rawPath_ne : rawPath ≠ []
  oldText_ne : oldText ≠ []

def EditRequest.ofArguments (arguments : List (Text × Value)) : Except AgentToolError EditRequest := do
  validateExact ["new_text".toList, "old_text".toList, "path".toList] arguments
  let rawPath ← requiredNonEmpty arguments "path".toList
  let oldText ← requiredNonEmpty arguments "old_text".toList
  let newText ← requiredText arguments "new_text".toList
  return { rawPath := rawPath.1, oldText := oldText.1, newText, rawPath_ne := rawPath.2, oldText_ne := oldText.2 }

/-- What `invoke` writes in the place of a file of these bytes. -/
def WorkspaceEditTool.edited (tool : WorkspaceEditTool) (r : EditRequest) (file : Bytes) : Except AgentToolError Bytes := do
  let content ← readUtf8 tool.maxWriteBytes r.rawPath file
  let occurrences := count r.oldText content
  if occurrences = 0 then
    .error ("replace-not-found".toList, "old_text was not found".toList)
  else if occurrences ≠ 1 then
    .error ("replace-not-unique".toList, "old_text matched ".toList ++ decimal occurrences ++ " times".toList)
  else
    encodeWithin tool.maxWriteBytes (replaceFirst r.oldText r.newText content)

/-- The text stands at one place of the file, and the file has changed at that place alone. -/
def Spliced (oldText newText : Text) (file file' : Bytes) : Prop :=
  ∃ a b, OnlyAt oldText (a ++ oldText ++ b) a b ∧ file = encode (a ++ oldText ++ b) ∧
    file' = encode a ++ encode newText ++ encode b

variable {tool : WorkspaceEditTool} {r : EditRequest} {file file' : Bytes}

theorem edited_ok (h : tool.edited r file = .ok file') :
    ∃ text, file = encode text ∧ count r.oldText (universalNewlines text) = 1 ∧
      file' = encode (replaceFirst r.oldText r.newText (universalNewlines text)) := by
  unfold WorkspaceEditTool.edited at h
  cases hread : readUtf8 tool.maxWriteBytes r.rawPath file with
  | error e => rw [hread] at h; exact nomatch h
  | ok content =>
    rw [hread] at h
    obtain ⟨text, hfile, rfl, -, -⟩ := readUtf8_ok hread
    change (if _ then _ else if _ then _ else _) = _ at h
    split at h
    · exact nomatch h
    · split at h
      · exact nomatch h
      · rename_i hone
        exact ⟨text, hfile, not_not.mp hone, (encodeWithin_ok h).1⟩

theorem encode_injective {t u : Text} (h : encode t = encode u) : t = u := by
  have hdecode := congrArg decode h
  rwa [decode_encode, decode_encode, Option.some.injEq] at hdecode

theorem no_return_of_spliced {text a b : Text} (hcount : count r.oldText (universalNewlines text) = 1)
    (htext : text = a ++ r.oldText ++ b)
    (hout : replaceFirst r.oldText r.newText (universalNewlines text) = a ++ r.newText ++ b) : '\r' ∉ text := by
  obtain ⟨p, q, hsplit, -, -, hreplace⟩ := exists_of_count r.oldText_ne hcount
  have hnone := no_return_universalNewlines text
  rw [hsplit] at hnone
  rw [hreplace] at hout
  have hreturns := congrArg (List.count '\r') hout
  simp only [List.mem_append, not_or] at hnone
  simp only [List.count_append, List.count_eq_zero_of_not_mem hnone.1.1, List.count_eq_zero_of_not_mem hnone.2]
    at hreturns
  have ha : '\r' ∉ a := List.count_eq_zero.mp (by omega)
  have hb : '\r' ∉ b := List.count_eq_zero.mp (by omega)
  rw [htext]
  simp [ha, hb, hnone.1.2]

/-- An edit that succeeds replaces the one occurrence and nothing else exactly when the file has no
carriage return, and the text does not overlap itself in it. -/
theorem edited_spliced_iff (h : tool.edited r file = .ok file') :
    Spliced r.oldText r.newText file file' ↔
      ∃ text, file = encode text ∧ '\r' ∉ text ∧ ¬ Overlaps r.oldText text := by
  obtain ⟨text, hfile, hcount, hfile'⟩ := edited_ok h
  obtain ⟨p, q, hsplit, hfirst, hrest, hreplace⟩ := exists_of_count r.oldText_ne hcount
  constructor
  · rintro ⟨a, b, honly, ha, hb⟩
    have htext : text = a ++ r.oldText ++ b := encode_injective (hfile.symm.trans ha)
    have hout : replaceFirst r.oldText r.newText (universalNewlines text) = a ++ r.newText ++ b := by
      apply encode_injective
      rw [← hfile', hb, encode_append, encode_append]
    have hplain := no_return_of_spliced hcount htext hout
    rw [universalNewlines_of_no_return hplain] at hsplit hfirst
    rw [← htext] at honly
    obtain ⟨rfl, rfl⟩ := (honly p q).mp hsplit
    exact ⟨text, hfile, hplain, (onlyAt_iff hsplit hfirst hrest).mp honly⟩
  · rintro ⟨text', hfile'', hplain, hover⟩
    have hsame : text' = text := encode_injective (hfile''.symm.trans hfile)
    rw [hsame] at hplain hover
    rw [universalNewlines_of_no_return hplain] at hsplit hfirst hreplace hfile'
    have honly := (onlyAt_iff hsplit hfirst hrest).mpr hover
    rw [hsplit] at honly
    refine ⟨p, q, honly, by rw [hfile, hsplit], ?_⟩
    rw [hfile', hreplace, encode_append, encode_append]

theorem edited_encode {text : Text} (hsize : (encode text).length ≤ tool.maxWriteBytes)
    (hnul : Char.ofNat 0 ∉ universalNewlines text) (hcount : count r.oldText (universalNewlines text) = 1)
    (hfits : (encode (replaceFirst r.oldText r.newText (universalNewlines text))).length ≤ tool.maxWriteBytes) :
    tool.edited r (encode text) = .ok (encode (replaceFirst r.oldText r.newText (universalNewlines text))) := by
  have hread : readUtf8 tool.maxWriteBytes r.rawPath (encode text) = .ok (universalNewlines text) := by
    rw [readUtf8, if_neg (by omega), decode_encode]
    exact if_neg hnul
  rw [WorkspaceEditTool.edited, hread]
  change (if _ then _ else if _ then _ else _) = _
  rw [if_neg (by omega), if_neg (by omega), encodeWithin, if_neg (by omega)]

theorem not_overlaps_char {c : Char} {t : Text} : ¬ Overlaps [c] t := by
  rintro ⟨u, v, w, hu, hv, hmark, -⟩
  have hlength := congrArg List.length hmark
  rw [List.length_append, List.length_singleton] at hlength
  have hupos := List.length_pos_iff.mpr hu
  have hvpos := List.length_pos_iff.mpr hv
  omega

theorem edited_spliced_one : Spliced "b".toList "cd".toList (encode "abe".toList) (encode "acde".toList) :=
  (@edited_spliced_iff {}
    { rawPath := "f".toList, oldText := "b".toList, newText := "cd".toList
      rawPath_ne := by decide, oldText_ne := by decide } _ _
    (@edited_encode _ _ "abe".toList (by decide) (by decide) (by decide) (by decide))).mpr
      ⟨_, rfl, by decide, not_overlaps_char⟩

/-- Two places that overlap count as one, and the line ends of a whole file change with one word. -/
theorem edited_not_spliced :
    (({} : WorkspaceEditTool).edited
        { rawPath := "f".toList, oldText := "aa".toList, newText := "b".toList
          rawPath_ne := by decide, oldText_ne := by decide } (encode "aaa".toList) = .ok (encode "ba".toList) ∧
      ¬ Spliced "aa".toList "b".toList (encode "aaa".toList) (encode "ba".toList)) ∧
    (({} : WorkspaceEditTool).edited
        { rawPath := "f".toList, oldText := "b".toList, newText := "c".toList
          rawPath_ne := by decide, oldText_ne := by decide } (encode "a\r\nb\r\n".toList) = .ok (encode "a\nc\n".toList) ∧
      ¬ Spliced "b".toList "c".toList (encode "a\r\nb\r\n".toList) (encode "a\nc\n".toList)) := by
  refine ⟨⟨@edited_encode _ _ "aaa".toList (by decide) (by decide) (by decide) (by decide), ?_⟩,
    @edited_encode _ _ "a\r\nb\r\n".toList (by decide) (by decide) (by decide) (by decide), ?_⟩
  · rintro ⟨a, b, honly, hfile, -⟩
    have htext := encode_injective hfile
    rw [← htext] at honly
    have hone := (honly [] ['a']).mp rfl
    have htwo := (honly ['a'] []).mp rfl
    rw [← hone.1] at htwo
    exact nomatch htwo.1
  · rintro ⟨a, b, -, hfile, hfile'⟩
    rw [← encode_append, ← encode_append] at hfile'
    have hreturns := congrArg (List.count '\r') (encode_injective hfile)
    have hreturns' := congrArg (List.count '\r') (encode_injective hfile')
    rw [List.count_append, List.count_append] at hreturns hreturns'
    have h1 : List.count '\r' "a\r\nb\r\n".toList = 2 := by decide
    have h2 : List.count '\r' "a\nc\n".toList = 0 := by decide
    have h3 : List.count '\r' "b".toList = 0 := by decide
    omega

end EvoHarness.Core.Agent
