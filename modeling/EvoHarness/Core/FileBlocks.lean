import EvoHarness.Core.PatchBlocks
import EvoHarness.Sketch

/-! Answers of several files: how a program is shown, and what is read out of the same text. -/
namespace EvoHarness.Core
open PyText
open Proof (Dict)

def heading : Text := "###".toList
def fileWord : Text := "FILE:".toList
def fence : Text := "```".toList

def isTagChar (c : Char) : Bool := c.isAlphanum || c == '_' || c == '+' || c == '-'

def FenceTag : Type := { t : Text // t.all isTagChar = true }

structure Genome where
  texts : Dict Text
  distinct : (texts.map Prod.fst).Nodup
  several : 1 < texts.length

def Genome.sorted (g : Genome) : List (Text × Text) := g.texts.insertionSort fun a b => a.1 ≤ b.1

def renderFile (language : FenceTag) (f : Text × Text) : Text :=
  "### FILE: ".toList ++ f.1 ++ '\n' :: fence ++ language.1 ++ '\n' :: f.2 ++ '\n' :: fence

def Genome.render (language : FenceTag) (g : Genome) : Text := join ['\n'] (g.sorted.map (renderFile language))

def fenceAt : Matcher Unit := fun t => if fence.isPrefixOf t then some ((), t.drop 3) else none

/-- `[a-zA-Z0-9_+-]*\s*\n` and the text up to the next fence. -/
def fencedText : Matcher Text := fun t =>
  ((lineEnds (t.dropWhile isTagChar)).findSome? (upTo fenceAt)).map fun p => (p.1.1, p.2)

def fencedBody : Matcher Text := fun t =>
  (lineEnds t).findSome? fun rest => if fence.isPrefixOf rest then fencedText (rest.drop 3) else none

def pathAndBody : Matcher (Text × Text) := fun t =>
  if t.takeWhile (!isSpace ·) = [] then none
  else (fencedBody (t.dropWhile (!isSpace ·))).map fun p => ((t.takeWhile (!isSpace ·), p.1), p.2)

/-- `_FILE_BLOCK_RE` behind the line end it needs before it. -/
def fileBlockAt : Matcher (Text × Text) := fun t =>
  match t with
  | '\n' :: t =>
    if heading.isPrefixOf t then
      let t := (t.drop 3).dropWhile isSpace
      if fileWord.isPrefixOf t then pathAndBody ((t.drop 5).dropWhile isSpace) else none
    else none
  | _ => none

/-- `_FILE_BLOCK_RE.findall`: a fence ends each match, so the line end before the next one is still there. -/
def fileBlocks (answer : Text) : List (Text × Text) := finditer fileBlockAt ('\n' :: answer)

def pathName (path : Text) : Text := (((path.splitOn '/').filter fun part => part ≠ [] ∧ part ≠ ['.']).getLast?).getD []

def isPlaceholder (path : Text) : Bool :=
  path.any (· ∈ "<>\x7b\x7d[]|*?\"'".toList) || isBlank path || contains "..".toList path

def isUsablePath (path : Text) : Bool :=
  if isPlaceholder path || path.head? == some '/' then false
  else '.' ∈ pathName path && path.getLast? != some '.'

def normalised (body : Text) : Text := if body.getLast? = some '\n' then body else body ++ ['\n']

def parseFileBlocks (answer : Text) : Dict Text :=
  (fileBlocks answer).foldl
    (fun out found => if isUsablePath found.1 then out.set found.1 (normalised found.2) else out) []

def withFiles (texts edits : Dict Text) : Dict Text := edits.foldr (fun e out => out.set e.1 e.2) texts

def ReadBack (language : FenceTag) (g : Genome) : Prop :=
  ∀ path, (parseFileBlocks (g.render language)).get path = g.texts.get path

def SeenUnchanged (language : FenceTag) (g : Genome) : Prop :=
  parseFileBlocks (g.render language) ≠ [] ∧
    ∀ path, (withFiles g.texts (parseFileBlocks (g.render language))).get path = g.texts.get path

/-- A file that comes back: one empty line, under a path that can be written into a heading. -/
def ComesBack (f : Text × Text) : Prop := f.2 = ['\n'] ∧ NoSpace f.1 ∧ isUsablePath f.1 = true

variable {t u w x y z : Text} {language : FenceTag} {f : Text × Text} {g : Genome}

theorem takeWhile_of_all {p : Char → Bool} (ht : ∀ c ∈ t, p c = true) (hu : ∀ c, u.head? = some c → p c = false) :
    (t ++ u).takeWhile p = t ∧ (t ++ u).dropWhile p = u := by
  have hhead : u.takeWhile p = [] ∧ u.dropWhile p = u := by
    cases u with
    | nil => exact ⟨rfl, rfl⟩
    | cons c u =>
      have hc : ¬ p c = true := by
        rw [hu c rfl]
        exact Bool.false_ne_true
      exact ⟨List.takeWhile_cons_of_neg hc, List.dropWhile_cons_of_neg hc⟩
  rw [List.takeWhile_append_of_pos ht, List.dropWhile_append_of_pos ht, hhead.1, hhead.2, List.append_nil]
  exact ⟨rfl, rfl⟩

def FenceFree (t : Text) : Prop := ∀ v, v <:+ t → ¬ fence <+: v

theorem fenceAt_eq_none (h : ¬ fence <+: t) : fenceAt t = none := by
  rw [fenceAt, if_neg]
  rw [List.isPrefixOf_iff_prefix]
  exact h

theorem fenceAt_fence (t : Text) : fenceAt (fence ++ t) = some ((), t) := by
  rw [fenceAt, if_pos]
  · rfl
  · rw [List.isPrefixOf_iff_prefix]
    exact List.prefix_append _ _

theorem newline_notMem_fence : '\n' ∉ fence := by decide

theorem lineEnds_append (h : StartsInk u) : lineEnds (t ++ u) = (lineEnds t).map (· ++ u) := by
  induction t with
  | nil => exact lineEnds_of_startsInk h
  | cons c t ih =>
    rw [List.cons_append, lineEnds, lineEnds]
    split
    · rw [ih, List.map_append]
      rfl
    · split
      · exact ih
      · rfl

theorem startsInk_fence (t : Text) : StartsInk (fence ++ t) := by
  unfold StartsInk
  have hcons : fence ++ t = '`' :: ("``".toList ++ t) := rfl
  rw [hcons, List.takeWhile_cons_of_neg (by decide)]
  exact List.not_mem_nil

/-- The text between the fences, as the pattern captures it: the leading blank lines are gone. -/
def captured (text : Text) : Text := ((lineEnds ('\n' :: text ++ ['\n'])).head?).getD []

theorem exists_captured (text : Text) :
    ∃ more, lineEnds ('\n' :: text ++ ['\n']) = captured text :: more := by
  have hne : lineEnds ('\n' :: text ++ ['\n']) ≠ [] := by
    rw [List.cons_append, lineEnds, if_pos rfl]
    simp
  cases h : lineEnds ('\n' :: text ++ ['\n']) with
  | nil => exact absurd h hne
  | cons v more =>
    refine ⟨more, ?_⟩
    rw [captured, h]
    rfl

/-- What is captured ends in the line end of the last line, if there is a line at all. -/
theorem captured_cases (text : Text) : captured text = [] ∨ ∃ s, captured text = s ++ ['\n'] ∧ s <:+ text := by
  obtain ⟨more, hmore⟩ := exists_captured text
  have hmem : captured text ∈ lineEnds ('\n' :: text ++ ['\n']) := by
    rw [hmore]
    exact List.mem_cons_self
  have hsuffix := suffix_of_mem_lineEnds hmem
  rw [List.cons_append] at hsuffix
  have htail : captured text <:+ text ++ ['\n'] := by
    obtain ⟨front, hfront⟩ := hsuffix
    cases front with
    | nil =>
      rw [List.nil_append] at hfront
      rw [(List.cons.inj hfront).2]
    | cons c front => exact ⟨front ++ ['\n'], by rw [← (List.cons.inj hfront).2]; simp⟩
  rw [List.suffix_concat_iff] at htail
  exact htail

theorem upTo_captured {text : Text} (hfree : FenceFree text) (z : Text) :
    upTo fenceAt (captured text ++ (fence ++ z)) = some ((captured text, ()), z) := by
  apply upTo_append
  · intro v hv hsuffix
    apply fenceAt_eq_none
    cases captured_cases text with
    | inl hnil =>
      rw [hnil, List.suffix_nil] at hsuffix
      exact absurd hsuffix hv
    | inr hline =>
      obtain ⟨s, hline, hs⟩ := hline
      rw [hline, List.suffix_concat_iff] at hsuffix
      cases hsuffix with
      | inl hnil => exact absurd hnil hv
      | inr hsuffix =>
        obtain ⟨v', hsuffix, hv'⟩ := hsuffix
        rw [hsuffix, List.append_assoc, List.singleton_append, prefix_line newline_notMem_fence]
        exact hfree _ (hv'.trans hs)
  · exact fenceAt_fence z

theorem fencedText_file (language : FenceTag) {text : Text} (hfree : FenceFree text) (z : Text) :
    fencedText (language.1 ++ ('\n' :: text ++ ['\n'] ++ (fence ++ z))) = some (captured text, z) := by
  have htag : ∀ c ∈ language.1, isTagChar c = true := List.all_eq_true.mp language.2
  have hdrop := (takeWhile_of_all (u := '\n' :: text ++ ['\n'] ++ (fence ++ z)) htag (by
    intro c hc
    rw [← Option.some.inj hc]
    rfl)).2
  obtain ⟨more, hmore⟩ := exists_captured text
  rw [fencedText, hdrop, lineEnds_append (startsInk_fence z), hmore, List.map_cons,
    List.findSome?_cons_of_isSome (by rw [upTo_captured hfree]; rfl), upTo_captured hfree]
  rfl

theorem fencedBody_file (language : FenceTag) {text : Text} (hfree : FenceFree text) (z : Text) :
    fencedBody ('\n' :: (fence ++ (language.1 ++ ('\n' :: text ++ ['\n'] ++ (fence ++ z))))) = some (captured text, z) := by
  have hfence : fence.isPrefixOf (fence ++ (language.1 ++ ('\n' :: text ++ ['\n'] ++ (fence ++ z)))) = true := by
    rw [List.isPrefixOf_iff_prefix]
    exact List.prefix_append _ _
  have hdrop : (fence ++ (language.1 ++ ('\n' :: text ++ ['\n'] ++ (fence ++ z)))).drop 3 =
      language.1 ++ ('\n' :: text ++ ['\n'] ++ (fence ++ z)) := rfl
  rw [fencedBody, lineEnds_newline (startsInk_fence _), List.findSome?_singleton, if_pos hfence, hdrop]
  exact fencedText_file language hfree z

theorem pathAndBody_path (hpath : f.1 ≠ []) (hspace : NoSpace f.1) :
    pathAndBody (f.1 ++ '\n' :: t) = (fencedBody ('\n' :: t)).map fun p => ((f.1, p.1), p.2) := by
  have hpart := takeWhile_of_all (p := (!isSpace ·)) (u := '\n' :: t) (by
    intro c hc
    rw [hspace c hc]
    rfl) (by
    intro c hc
    rw [← Option.some.inj hc]
    rfl)
  rw [pathAndBody, hpart.1, hpart.2, if_neg hpath]

theorem fileBlockAt_heading (hpath : f.1 ≠ []) (hspace : NoSpace f.1) :
    fileBlockAt ('\n' :: (heading ++ ' ' :: (fileWord ++ ' ' :: (f.1 ++ t)))) = pathAndBody (f.1 ++ t) := by
  have hheading : heading.isPrefixOf (heading ++ ' ' :: (fileWord ++ ' ' :: (f.1 ++ t))) = true := by
    rw [List.isPrefixOf_iff_prefix]
    exact List.prefix_append _ _
  have hblank : ((heading ++ ' ' :: (fileWord ++ ' ' :: (f.1 ++ t))).drop 3).dropWhile isSpace =
      fileWord ++ ' ' :: (f.1 ++ t) := by
    have hdrop : (heading ++ ' ' :: (fileWord ++ ' ' :: (f.1 ++ t))).drop 3 = ' ' :: (fileWord ++ ' ' :: (f.1 ++ t)) := rfl
    have hword : fileWord = 'F' :: "ILE:".toList := by decide
    rw [hdrop, List.dropWhile_cons_of_pos (by decide), hword, List.cons_append, List.dropWhile_cons_of_neg (by decide)]
  have hword : fileWord.isPrefixOf (fileWord ++ ' ' :: (f.1 ++ t)) = true := by
    rw [List.isPrefixOf_iff_prefix]
    exact List.prefix_append _ _
  have hdrop : ((fileWord ++ ' ' :: (f.1 ++ t)).drop 5).dropWhile isSpace = (f.1 ++ t).dropWhile isSpace := by
    have hdrop : (fileWord ++ ' ' :: (f.1 ++ t)).drop 5 = ' ' :: (f.1 ++ t) := rfl
    rw [hdrop, List.dropWhile_cons_of_pos (by decide)]
  have hink : (f.1 ++ t).dropWhile isSpace = f.1 ++ t := by
    obtain ⟨c, p, hp⟩ := List.exists_cons_of_ne_nil hpath
    rw [hp] at hspace ⊢
    apply List.dropWhile_cons_of_neg
    rw [hspace c List.mem_cons_self]
    exact Bool.false_ne_true
  rw [fileBlockAt, if_pos hheading, hblank, if_pos hword, hdrop, hink]

theorem heading_eq : "### FILE: ".toList = heading ++ ' ' :: (fileWord ++ [' ']) := by decide

theorem render_cons (language : FenceTag) (f : Text × Text) (z : Text) : renderFile language f ++ z = heading ++ ' ' ::
    (fileWord ++ ' ' :: (f.1 ++ '\n' :: (fence ++ (language.1 ++ ('\n' :: f.2 ++ ['\n'] ++ (fence ++ z)))))) := by
  unfold renderFile
  rw [heading_eq]
  -- the marks are not to be spelled out
  generalize heading = mark
  generalize fence = closing
  simp

/-- A file that is shown is a block of the answer, if its path can be written into a heading. -/
theorem fileBlockAt_file (hpath : f.1 ≠ []) (hspace : NoSpace f.1) (hfree : FenceFree f.2) (z : Text) :
    fileBlockAt ('\n' :: (renderFile language f ++ z)) = some ((f.1, captured f.2), z) := by
  rw [render_cons, fileBlockAt_heading hpath hspace, pathAndBody_path hpath hspace, fencedBody_file language hfree]
  rfl

theorem upTo_first {α : Type} {m : Matcher α} {a : α} (h : upTo m t = some ((y, a), x)) :
    ∃ v, t = y ++ v ∧ m v = some (a, x) ∧ ∀ w, w ≠ [] → w <:+ y → m (w ++ v) = none := by
  induction t generalizing y with
  | nil =>
    rw [upTo, Option.map_eq_some_iff] at h
    obtain ⟨p, hp, heq⟩ := h
    simp only [Prod.mk.injEq] at heq
    refine ⟨[], by rw [← heq.1.1]; rfl, by rw [hp, ← heq.1.2, ← heq.2], ?_⟩
    intro w hw hsuffix
    rw [← heq.1.1, List.suffix_nil] at hsuffix
    exact absurd hsuffix hw
  | cons c t ih =>
    rw [upTo] at h
    cases hm : m (c :: t) with
    | some p =>
      rw [hm] at h
      simp only [Option.some.injEq, Prod.mk.injEq] at h
      refine ⟨c :: t, by rw [← h.1.1]; rfl, by rw [hm, ← h.1.2, ← h.2], ?_⟩
      intro w hw hsuffix
      rw [← h.1.1, List.suffix_nil] at hsuffix
      exact absurd hsuffix hw
    | none =>
      rw [hm, Option.map_eq_some_iff] at h
      obtain ⟨p, hp, heq⟩ := h
      simp only [Prod.mk.injEq] at heq
      obtain ⟨v, hv, hmv, hearly⟩ := ih (y := p.1.1) (by rw [hp, ← heq.1.2, ← heq.2])
      refine ⟨v, by rw [← heq.1.1, hv]; rfl, hmv, ?_⟩
      intro w hw hsuffix
      rw [← heq.1.1, List.suffix_cons_iff] at hsuffix
      cases hsuffix with
      | inl hall => rw [hall, List.cons_append, ← hv, hm]
      | inr hsuffix => exact hearly w hw hsuffix

theorem fenceFree_of_upTo (h : upTo fenceAt t = some ((y, ()), x)) : FenceFree y ∧ x <:+ t := by
  obtain ⟨v, hv, hm, hearly⟩ := upTo_first h
  constructor
  · intro w hw hfence
    cases w with
    | nil => exact absurd hfence (by decide)
    | cons c w =>
      have hnone := hearly (c :: w) (List.cons_ne_nil c w) hw
      rw [fenceAt, if_pos (List.isPrefixOf_iff_prefix.mpr (hfence.trans (List.prefix_append _ v)))] at hnone
      cases hnone
  · rw [hv]
    refine List.IsSuffix.trans ?_ (List.suffix_append y v)
    rw [fenceAt] at hm
    split at hm
    · simp only [Option.some.injEq, Prod.mk.injEq, true_and] at hm
      rw [← hm]
      exact List.drop_suffix 3 v
    · cases hm

theorem suffix_of_lineEnds (h : u ∈ lineEnds t) : u <:+ t := (List.suffix_cons _ _).trans (suffix_of_mem_lineEnds h)

theorem fencedText_spec (h : fencedText t = some (y, x)) : FenceFree y ∧ x <:+ t := by
  rw [fencedText, Option.map_eq_some_iff] at h
  obtain ⟨p, hp, heq⟩ := h
  rw [Prod.mk.injEq] at heq
  obtain ⟨before, u, after, hu, hup, -⟩ := List.findSome?_eq_some_iff.mp hp
  have hmem : u ∈ lineEnds (t.dropWhile isTagChar) := by
    rw [hu]
    exact List.mem_append_right _ List.mem_cons_self
  have hspec := fenceFree_of_upTo (y := p.1.1) (x := p.2) hup
  rw [heq.1, heq.2] at hspec
  exact ⟨hspec.1, hspec.2.trans ((suffix_of_lineEnds hmem).trans (List.dropWhile_suffix _))⟩

theorem fencedBody_spec (h : fencedBody t = some (y, x)) : FenceFree y ∧ x <:+ t := by
  obtain ⟨before, u, after, hu, hbody, -⟩ := List.findSome?_eq_some_iff.mp h
  have hmem : u ∈ lineEnds t := by
    rw [hu]
    exact List.mem_append_right _ List.mem_cons_self
  split at hbody
  · have hspec := fencedText_spec hbody
    exact ⟨hspec.1, hspec.2.trans ((List.drop_suffix 3 u).trans (suffix_of_lineEnds hmem))⟩
  · cases hbody

theorem pathAndBody_spec (h : pathAndBody t = some (f, x)) : NoSpace f.1 ∧ FenceFree f.2 ∧ x <:+ t := by
  rw [pathAndBody] at h
  split at h
  · cases h
  · rw [Option.map_eq_some_iff] at h
    obtain ⟨p, hp, heq⟩ := h
    rw [Prod.mk.injEq] at heq
    have hspec := fencedBody_spec (y := p.1) (x := p.2) hp
    rw [← heq.1, ← heq.2]
    refine ⟨?_, hspec.1, hspec.2.trans (List.dropWhile_suffix _)⟩
    intro c hc
    simpa using List.mem_takeWhile_imp hc

theorem fileBlockAt_spec (h : fileBlockAt t = some (f, x)) :
    NoSpace f.1 ∧ FenceFree f.2 ∧ ∃ u, t = '\n' :: u ∧ x <:+ u := by
  unfold fileBlockAt at h
  split at h
  · rename_i u
    split at h
    · dsimp only at h
      split at h
      · obtain ⟨hpath, hfree, hsuffix⟩ := pathAndBody_spec h
        refine ⟨hpath, hfree, u, rfl, hsuffix.trans ?_⟩
        calc
          (((u.drop 3).dropWhile isSpace).drop 5).dropWhile isSpace
            <:+ ((u.drop 3).dropWhile isSpace).drop 5 := List.dropWhile_suffix _
          _ <:+ (u.drop 3).dropWhile isSpace := List.drop_suffix _ _
          _ <:+ u.drop 3 := List.dropWhile_suffix _
          _ <:+ u := List.drop_suffix _ _
      · cases h
    · cases h
  · cases h

theorem progress_fileBlockAt : Progress fileBlockAt := by
  intro c t f rest h
  obtain ⟨-, -, u, hu, hsuffix⟩ := fileBlockAt_spec h
  rw [(List.cons.inj hu).2]
  exact hsuffix

/-- Every file that is shown is read, if all paths can be written into a heading and no text has a fence. -/
theorem fileBlocks_files {files : List (Text × Text)}
    (h : ∀ f ∈ files, f.1 ≠ [] ∧ NoSpace f.1 ∧ FenceFree f.2) (hne : files ≠ []) :
    fileBlocks (join ['\n'] (files.map (renderFile language))) = files.map fun f => (f.1, captured f.2) := by
  unfold fileBlocks
  induction files with
  | nil => exact absurd rfl hne
  | cons f files ih =>
    rw [List.forall_mem_cons] at h
    have hfile : ∀ z, fileBlockAt ('\n' :: (renderFile language f ++ z)) = some ((f.1, captured f.2), z) :=
      fileBlockAt_file h.1.1 h.1.2.1 h.1.2.2
    cases files with
    | nil =>
      have hone := hfile []
      rw [List.append_nil] at hone
      rw [List.map_singleton, join, finditer_match progress_fileBlockAt hone, finditer_nil]
      rfl
    | cons k files =>
      have hjoin : join ['\n'] ((f :: k :: files).map (renderFile language)) =
          renderFile language f ++ ('\n' :: join ['\n'] ((k :: files).map (renderFile language))) := by
        simp [join]
      rw [hjoin, finditer_match progress_fileBlockAt (hfile _), ih h.2 (List.cons_ne_nil k files)]
      rfl

theorem eq_of_shifted {c d : Char} (h : c :: t = t ++ [d]) : ∀ a ∈ c :: t, a = d := by
  induction t generalizing c with
  | nil =>
    rw [List.nil_append] at h
    rw [h]
    intro a ha
    exact List.mem_singleton.mp ha
  | cons b t ih =>
    rw [List.cons_append, List.cons.injEq] at h
    have htail := ih h.2
    rw [List.forall_mem_cons]
    refine ⟨?_, htail⟩
    rw [h.1]
    exact htail b List.mem_cons_self

theorem startsInk_of_lineEnds (h : lineEnds t = []) : StartsInk t := by
  unfold StartsInk
  induction t with
  | nil => exact List.not_mem_nil
  | cons c t ih =>
    rw [lineEnds] at h
    split at h
    · exact absurd h (by simp)
    · rename_i hc
      split at h
      · rename_i hspace
        rw [List.takeWhile_cons_of_pos hspace, List.mem_cons, not_or]
        exact ⟨fun hn => hc hn.symm, ih h⟩
      · rename_i hspace
        rw [List.takeWhile_cons_of_neg hspace]
        exact List.not_mem_nil

theorem startsInk_of_first (h : (lineEnds t).head? = some u) : StartsInk u := by
  induction t with
  | nil => cases h
  | cons c t ih =>
    rw [lineEnds] at h
    split at h
    · cases hends : lineEnds t with
      | nil =>
        rw [hends, List.nil_append, List.head?_cons, Option.some.injEq] at h
        rw [← h]
        exact startsInk_of_lineEnds hends
      | cons v more =>
        rw [hends] at h
        apply ih
        rw [hends]
        exact h
    · split at h
      · exact ih h
      · cases h

theorem normalised_captured_iff (text : Text) : normalised (captured text) = text ↔ text = ['\n'] := by
  constructor
  · intro h
    cases captured_cases text with
    | inl hnil =>
      rw [hnil] at h
      rw [← h]
      rfl
    | inr hline =>
      obtain ⟨s, hline, hs⟩ := hline
      have hends : (captured text).getLast? = some '\n' := by
        rw [hline]
        exact List.getLast?_concat
      rw [normalised, if_pos hends] at h
      -- all but the last line end of the text is the text without its first character
      obtain ⟨front, hfront⟩ := hs
      have hone : front.length = 1 := by
        have hlength := congrArg List.length hfront
        rw [← h, hline, List.length_append, List.length_append, List.length_singleton] at hlength
        omega
      obtain ⟨c, hc⟩ := List.length_eq_one_iff.mp hone
      have hshift : c :: s = s ++ ['\n'] := by
        rw [← hline, h, ← hfront, hc]
        rfl
      have hall := eq_of_shifted hshift
      obtain ⟨more, hmore⟩ := exists_captured text
      have hink : StartsInk (captured text) := by
        apply startsInk_of_first (t := '\n' :: text ++ ['\n'])
        rw [hmore]
        rfl
      rw [hline, ← hshift, hall c List.mem_cons_self] at hink
      refine absurd ?_ hink
      rw [List.takeWhile_cons_of_pos (by decide)]
      exact List.mem_cons_self
  · intro h
    rw [h]
    rfl

theorem fenceFree_normalised (h : FenceFree y) : FenceFree (normalised y) := by
  unfold normalised
  split
  · exact h
  · intro v hv hfence
    rw [List.suffix_concat_iff] at hv
    cases hv with
    | inl hnil =>
      rw [hnil] at hfence
      exact absurd hfence (by decide)
    | inr hv =>
      obtain ⟨w, hw, hsuffix⟩ := hv
      rw [hw, prefix_line newline_notMem_fence] at hfence
      exact h w hsuffix hfence

def absorb (out : Dict Text) (found : Text × Text) : Dict Text :=
  if isUsablePath found.1 then out.set found.1 (normalised found.2) else out

theorem get_absorb_of_ne {out : Dict Text} {path : Text} (h : f.1 ≠ path) : (absorb out f).get path = out.get path := by
  unfold absorb
  split
  · exact Dict.get_set_of_ne out _ (Ne.symm h)
  · rfl

theorem get_absorb_cases {out : Dict Text} {path text : Text} (h : (absorb out f).get path = some text) :
    (f.1 = path ∧ isUsablePath path = true ∧ text = normalised f.2) ∨ out.get path = some text := by
  by_cases hpath : f.1 = path
  · unfold absorb at h
    split at h
    · rename_i husable
      rw [hpath, Dict.get_set_self, Option.some.injEq] at h
      rw [hpath] at husable
      exact Or.inl ⟨hpath, husable, h.symm⟩
    · exact Or.inr h
  · rw [get_absorb_of_ne hpath] at h
    exact Or.inr h

theorem get_absorbed {blocks : List (Text × Text)} {out : Dict Text} {path text : Text}
    (h : (blocks.foldl absorb out).get path = some text) :
    (isUsablePath path = true ∧ ∃ f ∈ blocks, f.1 = path ∧ text = normalised f.2) ∨ out.get path = some text := by
  induction blocks generalizing out with
  | nil => exact Or.inr h
  | cons f blocks ih =>
    cases ih h with
    | inl hlater =>
      obtain ⟨husable, k, hk, hread⟩ := hlater
      exact Or.inl ⟨husable, k, List.mem_cons_of_mem _ hk, hread⟩
    | inr hfirst =>
      cases get_absorb_cases hfirst with
      | inl hblock => exact Or.inl ⟨hblock.2.1, f, List.mem_cons_self, hblock.1, hblock.2.2⟩
      | inr hout => exact Or.inr hout

theorem get_absorbed_of_ne {blocks : List (Text × Text)} {out : Dict Text} {path : Text}
    (h : ∀ f ∈ blocks, f.1 ≠ path) : (blocks.foldl absorb out).get path = out.get path := by
  induction blocks generalizing out with
  | nil => rfl
  | cons f blocks ih =>
    rw [List.forall_mem_cons] at h
    rw [List.foldl_cons, ih h.2, get_absorb_of_ne h.1]

theorem get_absorbed_of_mem {blocks : List (Text × Text)} {out : Dict Text} (hdistinct : (blocks.map Prod.fst).Nodup)
    (hf : f ∈ blocks) (husable : isUsablePath f.1 = true) :
    (blocks.foldl absorb out).get f.1 = some (normalised f.2) := by
  induction blocks generalizing out with
  | nil => cases hf
  | cons k blocks ih =>
    rw [List.map_cons, List.nodup_cons] at hdistinct
    cases List.mem_cons.mp hf with
    | inl hk =>
      have hlater : ∀ g ∈ blocks, g.1 ≠ f.1 := by
        intro g hg heq
        rw [hk] at heq
        exact hdistinct.1 (List.mem_map.mpr ⟨g, hg, heq⟩)
      rw [List.foldl_cons, get_absorbed_of_ne hlater, ← hk, absorb, if_pos husable, Dict.get_set_self]
    | inr hk => exact ih hdistinct.2 hk

theorem get_of_mem {d : Dict Text} (hdistinct : (d.map Prod.fst).Nodup) (hf : f ∈ d) : d.get f.1 = some f.2 := by
  induction d with
  | nil => cases hf
  | cons k d ih =>
    rw [List.map_cons, List.nodup_cons] at hdistinct
    cases List.mem_cons.mp hf with
    | inl hk =>
      rw [hk, Dict.get, List.find?_cons_of_pos (by simp)]
      rfl
    | inr hk =>
      have hne : k.1 ≠ f.1 := by
        intro heq
        rw [heq] at hdistinct
        exact hdistinct.1 (List.mem_map.mpr ⟨f, hk, rfl⟩)
      rw [Dict.get, List.find?_cons_of_neg (by simpa using hne)]
      exact ih hdistinct.2 hk

theorem get_eq_none {d : Dict Text} {path : Text} (h : ∀ f ∈ d, f.1 ≠ path) : d.get path = none := by
  rw [Dict.get, Option.map_eq_none_iff, List.find?_eq_none]
  intro f hf
  simpa using h f hf

theorem get_withFiles (texts edits : Dict Text) (path : Text) :
    (withFiles texts edits).get path = (edits.get path).or (texts.get path) := by
  induction edits with
  | nil => rfl
  | cons e edits ih =>
    have hset : withFiles texts (e :: edits) = (withFiles texts edits).set e.1 e.2 := rfl
    rw [hset]
    by_cases hpath : e.1 = path
    · rw [← hpath, Dict.get_set_self, Dict.get, List.find?_cons_of_pos (by simp)]
      rfl
    · have hskip : Dict.get (e :: edits) path = Dict.get edits path := by
        rw [Dict.get, List.find?_cons_of_neg (by simpa using hpath)]
        rfl
      rw [Dict.get_set_of_ne _ _ (Ne.symm hpath), ih, hskip]

theorem mem_sorted : f ∈ g.sorted ↔ f ∈ g.texts := List.mem_insertionSort _

theorem distinct_sorted (g : Genome) : (g.sorted.map Prod.fst).Nodup :=
  ((List.perm_insertionSort _ g.texts).map Prod.fst).nodup_iff.mpr g.distinct

theorem sorted_ne_nil (g : Genome) : g.sorted ≠ [] := by
  have hseveral := g.several
  rw [← (List.perm_insertionSort (fun a b : Text × Text => a.1 ≤ b.1) g.texts).length_eq] at hseveral
  intro hnil
  rw [Genome.sorted] at hnil
  rw [hnil] at hseveral
  exact absurd hseveral (Nat.not_lt_zero 1)

theorem ne_nil_of_usable {path : Text} (h : isUsablePath path = true) : path ≠ [] := by
  intro hnil
  rw [hnil] at h
  exact absurd h (by decide)

theorem parseFileBlocks_eq (answer : Text) : parseFileBlocks answer = (fileBlocks answer).foldl absorb [] := rfl

theorem block_spec {answer : Text} (h : f ∈ fileBlocks answer) : NoSpace f.1 ∧ FenceFree f.2 := by
  obtain ⟨s, rest, hs⟩ := mem_finditer h
  have hspec := fileBlockAt_spec hs
  exact ⟨hspec.1, hspec.2.1⟩

theorem ReadBack.block (h : ReadBack language g) (hf : f ∈ g.texts) :
    isUsablePath f.1 = true ∧ ∃ k ∈ fileBlocks (g.render language), k.1 = f.1 ∧ f.2 = normalised k.2 := by
  have hget := h f.1
  rw [get_of_mem g.distinct hf, parseFileBlocks_eq] at hget
  cases get_absorbed hget with
  | inl hblock => exact hblock
  | inr hnone => cases hnone

theorem ReadBack.comesBack (h : ReadBack language g) : ∀ f ∈ g.texts, ComesBack f := by
  have hshown : ∀ f ∈ g.sorted, f.1 ≠ [] ∧ NoSpace f.1 ∧ FenceFree f.2 := by
    intro f hf
    obtain ⟨husable, k, hk, hpath, htext⟩ := h.block (mem_sorted.mp hf)
    have hspec := block_spec hk
    rw [hpath] at hspec
    refine ⟨ne_nil_of_usable husable, hspec.1, ?_⟩
    rw [htext]
    exact fenceFree_normalised hspec.2
  have hblocks : fileBlocks (g.render language) = g.sorted.map fun f => (f.1, captured f.2) :=
    fileBlocks_files hshown (sorted_ne_nil g)
  intro f hf
  obtain ⟨husable, k, hk, hpath, htext⟩ := h.block hf
  refine ⟨?_, (hshown f (mem_sorted.mpr hf)).2.1, husable⟩
  rw [hblocks, List.mem_map] at hk
  obtain ⟨j, hj, hjk⟩ := hk
  have hsame : j = f := by
    apply List.inj_on_of_nodup_map (distinct_sorted g) hj (mem_sorted.mpr hf)
    rw [← hpath, ← hjk]
  rw [← hjk, hsame] at htext
  exact (normalised_captured_iff f.2).mp htext.symm

theorem fenceFree_newline : FenceFree ['\n'] := by
  intro v hv hfence
  have hlength := hfence.length_le.trans hv.length_le
  exact absurd hlength (by decide)

theorem readBack_of_comesBack (h : ∀ f ∈ g.texts, ComesBack f) : ReadBack language g := by
  have hshown : ∀ f ∈ g.sorted, f.1 ≠ [] ∧ NoSpace f.1 ∧ FenceFree f.2 := by
    intro f hf
    obtain ⟨htext, hspace, husable⟩ := h f (mem_sorted.mp hf)
    rw [htext]
    exact ⟨ne_nil_of_usable husable, hspace, fenceFree_newline⟩
  have hblocks : fileBlocks (g.render language) = g.sorted.map fun f => (f.1, captured f.2) :=
    fileBlocks_files hshown (sorted_ne_nil g)
  have hkeys : ((g.sorted.map fun f => (f.1, captured f.2)).map Prod.fst).Nodup := by
    rw [List.map_map]
    exact distinct_sorted g
  intro path
  rw [parseFileBlocks_eq, hblocks]
  by_cases hpath : ∃ f ∈ g.texts, f.1 = path
  · obtain ⟨f, hf, hpath⟩ := hpath
    have hmem : (f.1, captured f.2) ∈ g.sorted.map fun f => (f.1, captured f.2) :=
      List.mem_map.mpr ⟨f, mem_sorted.mpr hf, rfl⟩
    have hread : ((g.sorted.map fun f => (f.1, captured f.2)).foldl absorb []).get f.1 = some (normalised (captured f.2)) :=
      get_absorbed_of_mem hkeys hmem (h f hf).2.2
    rw [(normalised_captured_iff f.2).mpr (h f hf).1] at hread
    rw [← hpath, get_of_mem g.distinct hf]
    exact hread
  · push Not at hpath
    rw [get_eq_none hpath, get_absorbed_of_ne]
    · rfl
    · intro k hk
      obtain ⟨f, hf, hfk⟩ := List.mem_map.mp hk
      rw [← hfk]
      exact hpath f (mem_sorted.mp hf)

theorem seenUnchanged_of_readBack (h : ReadBack language g) : SeenUnchanged language g := by
  constructor
  · intro hnil
    obtain ⟨f, hf⟩ := List.exists_mem_of_ne_nil _ (sorted_ne_nil g)
    have hget := h f.1
    rw [hnil, get_of_mem g.distinct (mem_sorted.mp hf)] at hget
    cases hget
  · intro path
    rw [get_withFiles, h path, Option.or_self]

/-- A program comes back from its own rendering just when every file is one empty line. -/
theorem file_blocks_round_trip_iff (language : FenceTag) (g : Genome) :
    ReadBack language g ∧ SeenUnchanged language g ↔ ∀ f ∈ g.texts, ComesBack f := by
  constructor
  · intro h
    exact h.1.comesBack
  · intro h
    have hread : ReadBack language g := readBack_of_comesBack h
    exact ⟨hread, seenUnchanged_of_readBack hread⟩

def pythonTag : FenceTag := ⟨"python".toList, rfl⟩

theorem distinct_pair : (([("a.py".toList, "x\n".toList), ("b.py".toList, "y\n".toList)] : Dict Text).map Prod.fst).Nodup := by
  decide

def pairGenome : Genome where
  texts := [("a.py".toList, "x\n".toList), ("b.py".toList, "y\n".toList)]
  distinct := distinct_pair
  several := Nat.lt_succ_self 1

theorem pair_not_read_back :
    (parseFileBlocks (pairGenome.render pythonTag)).get "a.py".toList = some "x\n\n".toList ∧
      ¬ (ReadBack pythonTag pairGenome ∧ SeenUnchanged pythonTag pairGenome) := by
  have hread : (parseFileBlocks (pairGenome.render pythonTag)).get "a.py".toList = some "x\n\n".toList := by
    decide +kernel
  refine ⟨hread, ?_⟩
  intro h
  have hback := h.1 "a.py".toList
  rw [hread] at hback
  exact absurd hback (by decide)

end EvoHarness.Core
