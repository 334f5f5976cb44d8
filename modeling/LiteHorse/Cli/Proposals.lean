/-
This file models the approval and the rejection of proposals: a candidate for a SKILL.md lies below
the proposals directory, and an approval puts it in the place of the live text if it passes every
gate against that text.

The main result says in which runs all is kept: a live text is the original one or has come from it
through candidates that passed, with the name of the original and ever higher versions, only files
of proposals are deleted, and a call that fails changes no file. The last needs statistics that can
be stamped: they are written after the live text has been replaced.
-/

import LiteHorse.Evolve.Constraints
import LiteHorse.Skills.LocalDispatch
import LiteHorse.Skills.Stats
import LiteHorse.Worker.Runner
import Mathlib.Logic.Relation

namespace LiteHorse.Cli

open Evolve FileTrees Pathlib Python Runs
open Agent.SkillCloud (isSlug)
open Skills (eq_ofString_of_isSlug skillDir skillMd)
open Skills.Stats (Stampable markOptimized)
open Worker.Queue (Interpreter PyError)

structure Setting (Finite : Type) where
  interpreter : Interpreter Finite
  isPrintable : Char → Bool
  safeLoad : SafeLoad
  /-- `skills_root().resolve()` -/
  home : List Str
  cwd : List Str

inductive Raised where
  /-- A `ValueError` of `_resolve_proposal`. -/
  | valueError (text : Str)
  | path (raised : PathError)
  | file (raised : Pathlib.Raised)
  | gate (raised : GateRaised)
  | stats (raised : PyError)

/-- A proposal by the names of its directory and its file. -/
structure Proposal where
  slug : Str
  name : Str

inductive Answer where
  | approved (slug livePath : Str)
  | rejected (slug path : Str)
  /-- `success` is false. -/
  | failed (error : String) (gates : List GateResult)

structure Outcome where
  answer : Except Raised Answer
  tree : Tree

/-! ### Where a proposal lies -/

/-- `_PROPOSALS_DIRNAME` -/
def proposalsDir : Str := Str.ofString ".proposals"

/-- The name up to its last dot, and the suffix. A dot at the start or the end makes no suffix. -/
def splitSuffix (name : Str) : Str × Str :=
  let back := name.reverse.takeWhile (· ≠ .char '.')
  let stem := (name.reverse.drop (back.length + 1)).reverse
  if stem ≠ [] ∧ back ≠ [] then (stem, .char '.' :: back.reverse) else (name, [])

def suffix (name : Str) : Str := (splitSuffix name).2

/-- `name.with_suffix(".json")` -/
def withJson (name : Str) : Str := (splitSuffix name).1 ++ Str.ofString ".json"

/-- `str(path)` -/
def pathText (parts : List Str) : Str := parts.flatMap (.char '/' :: ·)

namespace Proposal

variable (proposal : Proposal)

def md : List Name := osPath [proposalsDir, proposal.slug, proposal.name]

def sidecar : List Name := osPath [proposalsDir, proposal.slug, withJson proposal.name]

end Proposal

section Calls

variable {Finite : Type} (setting : Setting Finite) (tree : Tree)

/-- `_resolve_proposal` -/
def resolveProposal (path : Str) : Except Raised Proposal :=
  match resolve setting.cwd path with
  | .error raised => .error (.path raised)
  | .ok candidate =>
    let root := setting.home ++ [proposalsDir]
    if ¬ root <+: candidate then
      .error (.valueError (Str.ofString
        ("path escapes proposals root: " ++ path.repr setting.isPrintable)))
    else if suffix (candidate.getLast?.getD []) ≠ Str.ofString ".md" then
      .error (.valueError (Str.ofString "proposal path must end in .md"))
    else if tree.file (osPath (candidate.drop setting.home.length)) = none then
      .error (.valueError (Str.ofString "no such proposal: " ++ pathText candidate))
    else
      match candidate.drop root.length with
      | [slug, name] =>
        if isSlug slug.shown then .ok { slug, name }
        else
          .error (.valueError (Str.ofString
            ("invalid skill slug in path: " ++ slug.repr setting.isPrintable)))
      | _ =>
        .error (.valueError (Str.ofString "proposal must live at .proposals/<slug>/<ts>.md"))

/-! ### The calls -/

/-- What `approve_proposal` finds before it changes anything. -/
inductive Verdict where
  | missing (slug : Str)
  | failed (gates : List GateResult)
  | passed (proposal : Proposal) (candidate : String)

def runGates (slug : Str) (baseline candidate : String) (runner : RunnerResult) :
    Except GateRaised (List GateResult) := do
  let (name, version) ← baselineOf setting.interpreter.maxStrDigits setting.safeLoad slug baseline
  let frontmatter ← checkFrontmatter setting.isPrintable setting.interpreter.maxStrDigits
    setting.safeLoad candidate name version
  let pytest ← checkPytest runner
  return [checkSize candidate, checkInjection candidate, frontmatter, pytest]

def judge (path : Str) (runner : RunnerResult) : Except Raised Verdict :=
  (resolveProposal setting tree path).bind fun proposal =>
    ((readText tree proposal.md).mapError .file).bind fun candidate =>
      match tree.file (skillMd proposal.slug) with
      | none => .ok (.missing proposal.slug)
      | some _ =>
        ((readText tree (skillMd proposal.slug)).mapError .file).bind fun baseline =>
          ((runGates setting proposal.slug baseline candidate runner).mapError .gate).bind
            fun gates =>
              if gates.all (·.passed) then .ok (.passed proposal candidate)
              else .ok (.failed gates)

/-- Delete a proposal and the file beside it. -/
def discard (proposal : Proposal) (answer : Answer) : Outcome :=
  match tree.unlink proposal.md with
  | .error raised => ⟨.error (.file (.os raised)), tree⟩
  | .ok next =>
    if next.file proposal.sidecar = none then ⟨.ok answer, next⟩
    else
      match next.unlink proposal.sidecar with
      | .error raised => ⟨.error (.file (.os raised)), next⟩
      | .ok last => ⟨.ok answer, last⟩

/-- Replace the live text, stamp the statistics and delete the proposal. -/
def swap (proposal : Proposal) (candidate : String) (now : JsonTexts.Text) : Outcome :=
  match writeText tree (skillMd proposal.slug) (Str.ofString candidate) with
  | (.error raised, replaced) => ⟨.error (.file raised), replaced⟩
  | (.ok (), replaced) =>
    match markOptimized setting.interpreter now replaced (skillDir proposal.slug) with
    | (.error raised, marked) => ⟨.error (.stats raised), marked⟩
    | (.ok (), marked) =>
      discard marked proposal (.approved proposal.slug
        (pathText (setting.home ++ [proposal.slug, Str.ofString "SKILL.md"])))

def approveProposal (path : Str) (runner : RunnerResult) (now : JsonTexts.Text) : Outcome :=
  match judge setting tree path runner with
  | .error raised => ⟨.error raised, tree⟩
  | .ok (.missing slug) =>
    ⟨.ok (.failed ("live skill " ++ slug.repr setting.isPrintable ++
      " missing; cannot approve against baseline") []), tree⟩
  | .ok (.failed gates) =>
    let failing := (gates.filter fun gate => !gate.passed).map (·.name)
    ⟨.ok (.failed ("gates failed: " ++ ",".intercalate failing) gates), tree⟩
  | .ok (.passed proposal candidate) => swap setting tree proposal candidate now

def rejectProposal (path : Str) : Outcome :=
  match resolveProposal setting tree path with
  | .error raised => ⟨.error raised, tree⟩
  | .ok proposal =>
    discard tree proposal (.rejected proposal.slug
      (pathText (setting.home ++ [proposalsDir, proposal.slug, proposal.name])))

inductive ProposalCall where
  | approve (path : Str) (runner : RunnerResult) (now : JsonTexts.Text)
  | reject (path : Str)

def perform : ProposalCall → Outcome
  | .approve path runner now => approveProposal setting tree path runner now
  | .reject path => rejectProposal setting tree path

end Calls

/-! ### Names of skills -/

section Names

variable {slug other : Str}

theorem eq_of_osPath_slug (isSlug : Agent.SkillCloud.isSlug slug.shown = true)
    (isOther : Agent.SkillCloud.isSlug other.shown = true) (same : osPath [slug] = osPath [other]) :
    slug = other := by
  rw [eq_ofString_of_isSlug isSlug, eq_ofString_of_isSlug isOther] at same ⊢
  exact congrArg _ (eq_of_osPath same)

/-- No skill lies in the proposals directory. -/
theorem osPath_ne_proposalsDir (isSlug : Agent.SkillCloud.isSlug slug.shown = true) :
    osPath [slug] ≠ osPath [proposalsDir] := by
  intro same
  rw [eq_ofString_of_isSlug isSlug] at same
  rw [eq_of_osPath same] at isSlug
  cases isSlug

end Names

/-! ### What a call finds -/

section Finds

variable {Finite : Type} {setting : Setting Finite} {tree : Tree} {path : Str}
  {proposal : Proposal}

/-- A resolved path is the one of a file of a skill's proposals. -/
theorem resolveProposal_ok (resolved : resolveProposal setting tree path = .ok proposal) :
    isSlug proposal.slug.shown = true ∧ ∃ content, tree.file proposal.md = some content := by
  unfold resolveProposal at resolved
  split at resolved
  next => cases resolved
  next candidate _ =>
    dsimp only at resolved
    split at resolved
    next => cases resolved
    next inside =>
      split at resolved
      next => cases resolved
      next =>
        split at resolved
        next => cases resolved
        next isThere =>
          obtain ⟨rest, rfl⟩ := not_not.mp inside
          rw [List.drop_left] at resolved
          rw [List.append_assoc, List.drop_left] at isThere
          split at resolved
          next slug name =>
            split at resolved
            next slug =>
              cases resolved
              exact ⟨slug, Option.ne_none_iff_exists'.mp isThere⟩
            next => cases resolved
          next => cases resolved

end Finds

/-! ### Replacing a live text -/

section Replacing

variable {Finite : Type} (setting : Setting Finite) (slug : Str)

/-- The name and the version of a live text: the slug where there is no name, and 0 where there is
no version that is an integer. A text that cannot be read has none. -/
def frontmatterOf (content : ByteArray) : Option (Str × Int) :=
  (textOf content).bind fun text =>
    ((baselineOf setting.interpreter.maxStrDigits setting.safeLoad slug
      (Python.readText text)).toOption).map fun found => (found.1, found.2.getD 0)

/-- The next content is a candidate, read from a file, that has passed every gate against the text
of the first. -/
def Replaces (content next : ByteArray) : Prop :=
  ∃ text raw runner gates, textOf content = some text ∧ next = (Python.readText raw).toUTF8 ∧
    runGates setting slug (Python.readText text) (Python.readText raw) runner = .ok gates ∧
    ∀ gate ∈ gates, gate.passed = true

variable {setting slug} {content next : ByteArray}

/-- What replaces a live text has its name and a higher version. -/
theorem frontmatter_of_replaces (isSlug : isSlug slug.shown = true)
    (replaces : Replaces setting slug content next) :
    ∃ name version later, frontmatterOf setting slug content = some (name, version) ∧
      frontmatterOf setting slug next = some (name, later) ∧ version < later := by
  obtain ⟨text, raw, runner, gates, isText, rfl, ran, passed⟩ := replaces
  obtain ⟨⟨name, version⟩, isBaseline, ran⟩ := bind_eq_ok_iff.mp ran
  obtain ⟨frontmatter, checked, ran⟩ := bind_eq_ok_iff.mp ran
  obtain ⟨pytest, _, ran⟩ := bind_eq_ok_iff.mp ran
  cases ran
  have frontmatterPassed : frontmatter.passed = true := passed frontmatter (by simp)
  have slugNotEmpty : slug ≠ [] := by
    rintro rfl
    cases isSlug
  obtain ⟨later, isLater, higher⟩ : ∃ later,
      baselineOf setting.interpreter.maxStrDigits setting.safeLoad slug (Python.readText raw) =
        .ok (name, some later) ∧ version.getD 0 < later :=
    baselineOf_candidate (baselineOf_name_ne_nil slugNotEmpty isBaseline) checked
      frontmatterPassed
  refine ⟨name, version.getD 0, later, ?_, ?_, higher⟩
  · unfold frontmatterOf
    rw [isText, Option.bind_some, isBaseline]
    rfl
  · unfold frontmatterOf
    rw [textOf_toUTF8, Option.bind_some, readText_readText, isLater]
    rfl

theorem ne_of_replaces (isSlug : Agent.SkillCloud.isSlug slug.shown = true)
    (replaces : Replaces setting slug content next) : next ≠ content := by
  rintro rfl
  obtain ⟨name, version, later, isOld, isNew, higher⟩ := frontmatter_of_replaces isSlug replaces
  cases isOld.symm.trans isNew
  exact absurd higher (Int.lt_irrefl _)

theorem judge_passed {tree : Tree} {path : Str} {runner : RunnerResult} {proposal : Proposal}
    {candidate : String}
    (judged : judge setting tree path runner = .ok (.passed proposal candidate)) :
    Agent.SkillCloud.isSlug proposal.slug.shown = true ∧
      (∃ content, tree.file proposal.md = some content) ∧
      ∃ content, tree.file (skillMd proposal.slug) = some content ∧
        Replaces setting proposal.slug content candidate.toUTF8 := by
  obtain ⟨found, resolved, judged⟩ := bind_eq_ok_iff.mp judged
  obtain ⟨isSlug, isFile⟩ := resolveProposal_ok resolved
  obtain ⟨text, isText, judged⟩ := bind_eq_ok_iff.mp judged
  obtain ⟨_, raw, _, _, rfl⟩ := readText_eq_ok_iff.mp (mapError_eq_ok_iff.mp isText)
  split at judged
  next => cases judged
  next =>
    obtain ⟨baseline, isBaseline, judged⟩ := bind_eq_ok_iff.mp judged
    obtain ⟨content, old, isContent, isOld, rfl⟩ :=
      readText_eq_ok_iff.mp (mapError_eq_ok_iff.mp isBaseline)
    obtain ⟨gates, ran, judged⟩ := bind_eq_ok_iff.mp judged
    split at judged
    next passed =>
      cases judged
      refine ⟨isSlug, isFile, content, isContent, old, raw, runner, gates, isOld, rfl,
        mapError_eq_ok_iff.mp ran, List.all_eq_true.mp passed⟩
    next => cases judged

theorem judge_of_passed {tree : Tree} {path : Str} {runner : RunnerResult} {proposal : Proposal}
    {candidate baseline : String} {gates : List GateResult}
    (resolved : resolveProposal setting tree path = .ok proposal)
    (isCandidate : readText tree proposal.md = .ok candidate)
    (isLive : tree.file (skillMd proposal.slug) = some content)
    (isBaseline : readText tree (skillMd proposal.slug) = .ok baseline)
    (ran : runGates setting proposal.slug baseline candidate runner = .ok gates)
    (passed : gates.all (·.passed) = true) :
    judge setting tree path runner = .ok (.passed proposal candidate) := by
  refine bind_eq_ok_iff.mpr ⟨proposal, resolved, bind_eq_ok_iff.mpr
    ⟨candidate, mapError_eq_ok_iff.mpr isCandidate, ?_⟩⟩
  rw [isLive]
  refine bind_eq_ok_iff.mpr ⟨baseline, mapError_eq_ok_iff.mpr isBaseline, bind_eq_ok_iff.mpr
    ⟨gates, mapError_eq_ok_iff.mpr ran, ?_⟩⟩
  rw [if_pos passed]

theorem approveProposal_of_passed {tree : Tree} {path : Str} {runner : RunnerResult}
    {now : JsonTexts.Text} {proposal : Proposal} {candidate : String}
    (judged : judge setting tree path runner = .ok (.passed proposal candidate)) :
    approveProposal setting tree path runner now = swap setting tree proposal candidate now := by
  unfold approveProposal
  rw [judged]

end Replacing

/-! ### What a call does to the files -/

/-- The path is one in the proposals directory. -/
def InProposals (path : List Name) : Prop := osPath [proposalsDir] <+: path

theorem not_inProposals {slug : Str} (isSlug : isSlug slug.shown = true) (rest : List Name) :
    ¬ InProposals (osPath [slug] ++ rest) := by
  intro inside
  have sameHead := (List.cons_prefix_cons.mp inside).1
  exact osPath_ne_proposalsDir isSlug (congrArg (fun name => [name]) sameHead.symm)

theorem skillMd_ne_sidecar (slug other : Str) :
    skillMd slug ≠ Skills.Stats.sidecar (skillDir other) := by
  intro same
  have sameName : osPath [Str.ofString "SKILL.md"] = osPath [Str.ofString ".stats.json"] :=
    congrArg List.tail same
  exact absurd sameName (by decide)

theorem eq_of_skillMd {slug other : Str} (isSlug : isSlug slug.shown = true)
    (isOther : Agent.SkillCloud.isSlug other.shown = true) (same : skillMd slug = skillMd other) :
    slug = other :=
  eq_of_osPath_slug isSlug isOther (congrArg (List.take 1) same)

/-- The candidate has become the live text of the skill. Besides it only the statistics and files of
proposals may have changed. -/
structure Swapped (tree next : Tree) (slug : Str) (candidate : String) : Prop where
  live : next.file (skillMd slug) = some candidate.toUTF8
  others : ∀ path, path ≠ skillMd slug → next.file path = tree.file path ∨
    (path = Skills.Stats.sidecar (skillDir slug) ∧ (next.file path).isSome = true) ∨
    InProposals path

section Files

variable {Finite : Type} {setting : Setting Finite} {tree : Tree} {proposal : Proposal}
  {candidate : String} {content : ByteArray}

/-- A proposal that is there is deleted, and nothing outside of the proposals. -/
theorem discard_spec (isFile : tree.file proposal.md = some content) (answer : Answer) :
    (discard tree proposal answer).answer = .ok answer ∧
      ∀ path, (discard tree proposal answer).tree.file path = tree.file path ∨
        InProposals path := by
  have mdInside : ∀ path, proposal.md <+: path → InProposals path :=
    fun path below => (show osPath [proposalsDir] <+: proposal.md from ⟨_, rfl⟩).trans below
  have sidecarInside : ∀ path, proposal.sidecar <+: path → InProposals path :=
    fun path below => (show osPath [proposalsDir] <+: proposal.sidecar from ⟨_, rfl⟩).trans below
  obtain ⟨next, removed⟩ := FileTree.exists_unlink isFile
  have others : ∀ path, next.file path = tree.file path ∨ InProposals path := by
    intro path
    rw [FileTree.file_of_unlink removed]
    split
    next below => exact Or.inr (mdInside path below)
    next => exact Or.inl rfl
  unfold discard
  rw [removed]
  dsimp only
  split
  next => exact ⟨rfl, others⟩
  next isThere =>
    obtain ⟨beside, isBeside⟩ := Option.ne_none_iff_exists'.mp isThere
    obtain ⟨last, removedBeside⟩ := FileTree.exists_unlink isBeside
    rw [removedBeside]
    refine ⟨rfl, fun path => ?_⟩
    rw [FileTree.file_of_unlink removedBeside]
    split
    next below => exact Or.inr (sidecarInside path below)
    next => exact others path

/-- A candidate that passed becomes the live text, also where the statistics cannot be stamped, and
then the call raises. -/
theorem swap_spec (isSlug : isSlug proposal.slug.shown = true)
    (isMd : ∃ content, tree.file proposal.md = some content)
    (isLive : tree.file (skillMd proposal.slug) = some content) (now : JsonTexts.Text) :
    Swapped tree (swap setting tree proposal candidate now).tree proposal.slug candidate ∧
      (((∀ raw, tree.file (Skills.Stats.sidecar (skillDir proposal.slug)) = some raw →
            Stampable setting.interpreter now raw) ∧
          ∃ path, (swap setting tree proposal candidate now).answer =
            .ok (.approved proposal.slug path)) ∨
        ((¬ ∀ raw, tree.file (Skills.Stats.sidecar (skillDir proposal.slug)) = some raw →
            Stampable setting.interpreter now raw) ∧
          ∃ raised, (swap setting tree proposal candidate now).answer = .error raised)) := by
  obtain ⟨replaced, isWritten⟩ := FileTree.exists_writeFile isLive candidate.toUTF8
  have files := FileTree.file_of_writeFile isWritten
  have liveReplaced : replaced.file (skillMd proposal.slug) = some candidate.toUTF8 :=
    (files _).trans (if_pos rfl)
  have isDirectory : replaced.IsDirectory (skillDir proposal.slug) :=
    FileTree.isDirectory_of_file liveReplaced
  have stamps := @Skills.Stats.markOptimized_eq_ok_iff _ setting.interpreter now _ _ isDirectory
  rw [files, if_neg (skillMd_ne_sidecar _ _).symm] at stamps
  have marks := @Skills.Stats.file_of_markOptimized _ setting.interpreter now replaced
    (skillDir proposal.slug)
  unfold swap
  rw [writeText_ofString isWritten]
  dsimp only
  generalize markOptimized setting.interpreter now replaced (skillDir proposal.slug) = marked
    at stamps marks ⊢
  obtain ⟨answer, marked⟩ := marked
  have swapped : Swapped tree marked proposal.slug candidate := by
    constructor
    · rcases marks (skillMd proposal.slug) with same | ⟨isSidecar, _⟩
      · exact same.trans liveReplaced
      · exact absurd isSidecar (skillMd_ne_sidecar _ _)
    · intro path notLive
      rcases marks path with same | changed
      · exact Or.inl (same.trans ((files path).trans (if_neg notLive)))
      · exact Or.inr (Or.inl changed)
  cases answer with
  | error raised =>
    refine ⟨swapped, Or.inr ⟨fun stampable => ?_, _, rfl⟩⟩
    cases stamps.mpr stampable
  | ok done =>
    obtain ⟨md, isMd⟩ := isMd
    have mdInside : InProposals proposal.md := ⟨_, rfl⟩
    have mdNotLive : proposal.md ≠ skillMd proposal.slug :=
      fun same => not_inProposals isSlug _ (same ▸ mdInside)
    have mdKept : marked.file proposal.md = some md := by
      rcases marks proposal.md with same | ⟨isSidecar, _⟩
      · exact same.trans ((files _).trans ((if_neg mdNotLive).trans isMd))
      · exact absurd (isSidecar ▸ mdInside) (not_inProposals isSlug _)
    obtain ⟨isAnswer, others⟩ := discard_spec mdKept (.approved proposal.slug
      (pathText (setting.home ++ [proposal.slug, Str.ofString "SKILL.md"])))
    refine ⟨⟨?_, fun path notLive => ?_⟩, Or.inl ⟨stamps.mp rfl, _, isAnswer⟩⟩
    · rcases others (skillMd proposal.slug) with same | inside
      · exact same.trans swapped.live
      · exact absurd inside (not_inProposals isSlug _)
    · rcases others path with same | inside
      · rw [same]
        exact swapped.others path notLive
      · exact Or.inr (Or.inr inside)

end Files

/-! ### What a call can do -/

def Succeeds : Except Raised Answer → Prop
  | .ok (.approved ..) | .ok (.rejected ..) => True
  | .ok (.failed ..) | .error _ => False

section Calls

variable {Finite : Type} (setting : Setting Finite)

/-- The statistics of a skill whose candidate passes, if there are any, can be stamped. -/
def StatsCanBeStamped (tree : Tree) : ProposalCall → Prop
  | .approve path runner now =>
    ∀ proposal candidate, judge setting tree path runner = .ok (.passed proposal candidate) →
      ∀ raw, tree.file (Skills.Stats.sidecar (skillDir proposal.slug)) = some raw →
        Stampable setting.interpreter now raw
  | .reject _ => True

inductive Does (tree : Tree) (call : ProposalCall) (outcome : Outcome) : Prop where
  | refused (unchanged : outcome.tree = tree) (fails : ¬ Succeeds outcome.answer)
      (stampable : StatsCanBeStamped setting tree call)
  | rejected (path slug shown : Str) (isReject : call = .reject path)
      (isAnswer : outcome.answer = .ok (.rejected slug shown))
      (others : ∀ path, outcome.tree.file path = tree.file path ∨ InProposals path)
  | replaced (slug : Str) (candidate : String) (content : ByteArray)
      (isApprove : ∀ path, call ≠ .reject path) (isSlug : isSlug slug.shown = true)
      (isLive : tree.file (skillMd slug) = some content)
      (replaces : Replaces setting slug content candidate.toUTF8)
      (swapped : Swapped tree outcome.tree slug candidate)
      (answered : (StatsCanBeStamped setting tree call ∧
          ∃ path, outcome.answer = .ok (.approved slug path)) ∨
        (¬ StatsCanBeStamped setting tree call ∧ ∃ raised, outcome.answer = .error raised))

variable {setting} {tree : Tree}

theorem does_approve (path : Str) (runner : RunnerResult) (now : JsonTexts.Text) :
    Does setting tree (.approve path runner now)
      (approveProposal setting tree path runner now) := by
  unfold approveProposal
  split
  next raised judged =>
    refine .refused rfl id fun proposal candidate passed => ?_
    cases judged.symm.trans passed
  next slug judged =>
    refine .refused rfl id fun proposal candidate passed => ?_
    cases judged.symm.trans passed
  next gates judged =>
    refine .refused rfl id fun proposal candidate passed => ?_
    cases judged.symm.trans passed
  next proposal candidate judged =>
    obtain ⟨isSlug, isMd, content, isLive, replaces⟩ := judge_passed judged
    obtain ⟨swapped, answered⟩ := swap_spec isSlug isMd isLive now
    have condition : StatsCanBeStamped setting tree (.approve path runner now) ↔
        ∀ raw, tree.file (Skills.Stats.sidecar (skillDir proposal.slug)) = some raw →
          Stampable setting.interpreter now raw := by
      constructor
      · exact fun stampable => stampable proposal candidate judged
      · intro stampable other otherCandidate otherJudged
        cases judged.symm.trans otherJudged
        exact stampable
    rw [← condition] at answered
    refine .replaced proposal.slug candidate content (fun path same => ?_) isSlug isLive replaces
      swapped answered
    cases same

theorem does_perform (call : ProposalCall) :
    Does setting tree call (perform setting tree call) := by
  cases call with
  | approve path runner now => exact does_approve path runner now
  | reject path =>
    show Does setting tree (.reject path) (rejectProposal setting tree path)
    unfold rejectProposal
    split
    next => exact .refused rfl id trivial
    next proposal resolved =>
      obtain ⟨_, content, isFile⟩ := resolveProposal_ok resolved
      obtain ⟨isAnswer, others⟩ := discard_spec isFile (.rejected proposal.slug
        (pathText (setting.home ++ [proposalsDir, proposal.slug, proposal.name])))
      exact .rejected path _ _ rfl isAnswer others

end Calls

/-! ### Runs -/

section Runs

variable {Finite : Type} (setting : Setting Finite)

def proposalStep (tree : Tree) (call : ProposalCall) : Option Tree :=
  some (perform setting tree call).tree

/-- Every live text is the original one or has come from it through candidates that passed, and has
its name and no lower version. -/
structure Gated (start tree : Tree) : Prop where
  lineage : ∀ slug, isSlug slug.shown = true →
    Option.Rel (Relation.ReflTransGen (Replaces setting slug)) (start.file (skillMd slug))
      (tree.file (skillMd slug))
  named : ∀ slug, isSlug slug.shown = true → ∀ name version,
    (start.file (skillMd slug)).bind (frontmatterOf setting slug) = some (name, version) →
    ∃ later, (tree.file (skillMd slug)).bind (frontmatterOf setting slug) = some (name, later) ∧
      version ≤ later

/-- What a call may do. A live text is that of a skill, whose name is a slug. -/
structure Behaves (tree : Tree) (call : ProposalCall) (outcome : Outcome) : Prop where
  /-- An approval keeps the name and raises the version. -/
  approved : ∀ slug path, outcome.answer = .ok (.approved slug path) →
    ∃ name version later,
      (tree.file (skillMd slug)).bind (frontmatterOf setting slug) = some (name, version) ∧
      (outcome.tree.file (skillMd slug)).bind (frontmatterOf setting slug) = some (name, later) ∧
      version < later
  /-- A rejection changes no live text. -/
  rejected : (∃ path, call = .reject path) → ∀ slug, isSlug slug.shown = true →
    outcome.tree.file (skillMd slug) = tree.file (skillMd slug)
  /-- A call that raises or reports a failure changes no file. -/
  failed : ¬ Succeeds outcome.answer → outcome.tree.file = tree.file
  deleted : ∀ path, (tree.file path).isSome = true → outcome.tree.file path = none →
    InProposals path
  /-- Only live texts, statistics of skills and files of proposals change. -/
  others : ∀ path, outcome.tree.file path ≠ tree.file path →
    InProposals path ∨ ∃ slug, isSlug slug.shown = true ∧
      (path = skillMd slug ∨ path = Skills.Stats.sidecar (skillDir slug))

variable {setting} {start tree : Tree}

theorem frontmatter_of_lineage {slug : Str} {original content : ByteArray} {name : Str}
    {version : Int} (isSlug : isSlug slug.shown = true)
    (lineage : Relation.ReflTransGen (Replaces setting slug) original content)
    (isOriginal : frontmatterOf setting slug original = some (name, version)) :
    ∃ later, frontmatterOf setting slug content = some (name, later) ∧ version ≤ later := by
  induction lineage with
  | refl => exact ⟨version, isOriginal, Int.le_refl version⟩
  | tail _ replaces inductionHypothesis =>
    obtain ⟨between, isBetween, notLower⟩ := inductionHypothesis
    obtain ⟨_, _, later, isOld, isNew, higher⟩ := frontmatter_of_replaces isSlug replaces
    cases isBetween.symm.trans isOld
    exact ⟨later, isNew, Int.le_trans notLower (Int.le_of_lt higher)⟩

/-- Lineages are all that has to be kept. -/
theorem gated_of_lineage (lineage : ∀ slug, isSlug slug.shown = true →
    Option.Rel (Relation.ReflTransGen (Replaces setting slug)) (start.file (skillMd slug))
      (tree.file (skillMd slug))) : Gated setting start tree := by
  refine ⟨lineage, fun slug isSlug name version isName => ?_⟩
  have related := lineage slug isSlug
  cases found : start.file (skillMd slug) with
  | none =>
    rw [found] at isName
    cases isName
  | some original =>
    rw [found] at isName related
    cases current : tree.file (skillMd slug) with
    | none =>
      rw [current] at related
      cases related
    | some content =>
      rw [current] at related
      cases related with
      | some lineage => exact frontmatter_of_lineage isSlug lineage isName

theorem gated_start (start : Tree) : Gated setting start start := by
  refine gated_of_lineage fun slug _ => ?_
  cases start.file (skillMd slug) with
  | none => exact .none
  | some content => exact .some .refl

theorem gated_step {call : ProposalCall} {outcome : Outcome} (gated : Gated setting start tree)
    (does : Does setting tree call outcome) : Gated setting start outcome.tree := by
  refine gated_of_lineage fun slug isSlug => ?_
  have outside : ¬ InProposals (skillMd slug) := not_inProposals isSlug _
  cases does with
  | refused unchanged _ _ =>
    rw [unchanged]
    exact gated.lineage slug isSlug
  | rejected _ _ _ _ _ others =>
    rw [(others (skillMd slug)).resolve_right outside]
    exact gated.lineage slug isSlug
  | replaced other candidate content _ isOther isLive replaces swapped _ =>
    by_cases same : slug = other
    · subst same
      have related := gated.lineage slug isSlug
      rw [isLive] at related
      rw [swapped.live]
      cases found : start.file (skillMd slug) with
      | none =>
        rw [found] at related
        cases related
      | some original =>
        rw [found] at related
        cases related with
        | some lineage => exact .some (lineage.tail replaces)
    · rcases swapped.others (skillMd slug) fun isSame => same (eq_of_skillMd isSlug isOther isSame)
        with unchanged | ⟨isSidecar, _⟩ | inside
      · rw [unchanged]
        exact gated.lineage slug isSlug
      · exact absurd isSidecar (skillMd_ne_sidecar _ _)
      · exact absurd inside outside

theorem behaves_refused {call : ProposalCall} {outcome : Outcome}
    (unchanged : outcome.tree = tree) (fails : ¬ Succeeds outcome.answer) :
    Behaves setting tree call outcome := by
  constructor
  · intro slug path isApproved
    rw [isApproved] at fails
    exact absurd trivial fails
  · intro _ slug _
    rw [unchanged]
  · intro _
    rw [unchanged]
  · intro path isThere isGone
    rw [unchanged] at isGone
    rw [isGone] at isThere
    cases isThere
  · intro path changed
    rw [unchanged] at changed
    exact absurd rfl changed

theorem behaves_rejected {call : ProposalCall} {outcome : Outcome} {slug shown : Str}
    (isAnswer : outcome.answer = .ok (.rejected slug shown))
    (others : ∀ path, outcome.tree.file path = tree.file path ∨ InProposals path) :
    Behaves setting tree call outcome := by
  constructor
  · intro other path isApproved
    cases isAnswer.symm.trans isApproved
  · exact fun _ slug isSlug => (others (skillMd slug)).resolve_right (not_inProposals isSlug _)
  · intro fails
    rw [isAnswer] at fails
    exact absurd trivial fails
  · intro path isThere isGone
    rcases others path with same | inside
    · rw [← same, isGone] at isThere
      cases isThere
    · exact inside
  · exact fun path changed => Or.inl ((others path).resolve_left changed)

theorem behaves_approved {call : ProposalCall} {outcome : Outcome} {slug shown : Str}
    {candidate : String} {content : ByteArray} (isApprove : ∀ path, call ≠ .reject path)
    (isSlug : isSlug slug.shown = true) (isLive : tree.file (skillMd slug) = some content)
    (replaces : Replaces setting slug content candidate.toUTF8)
    (swapped : Swapped tree outcome.tree slug candidate)
    (isAnswer : outcome.answer = .ok (.approved slug shown)) :
    Behaves setting tree call outcome := by
  constructor
  · intro other path isApproved
    cases isAnswer.symm.trans isApproved
    obtain ⟨name, version, later, isOld, isNew, higher⟩ := frontmatter_of_replaces isSlug replaces
    rw [isLive, swapped.live]
    exact ⟨name, version, later, isOld, isNew, higher⟩
  · rintro ⟨path, isReject⟩
    exact absurd isReject (isApprove path)
  · intro fails
    rw [isAnswer] at fails
    exact absurd trivial fails
  · intro path isThere isGone
    by_cases isPath : path = skillMd slug
    · rw [isPath, swapped.live] at isGone
      cases isGone
    · rcases swapped.others path isPath with same | ⟨_, isSome⟩ | inside
      · rw [← same, isGone] at isThere
        cases isThere
      · rw [isGone] at isSome
        cases isSome
      · exact inside
  · intro path changed
    by_cases isPath : path = skillMd slug
    · exact Or.inr ⟨slug, isSlug, Or.inl isPath⟩
    · rcases swapped.others path isPath with same | ⟨isSidecar, _⟩ | inside
      · exact absurd same changed
      · exact Or.inr ⟨slug, isSlug, Or.inr isSidecar⟩
      · exact Or.inl inside

theorem behaves_iff (call : ProposalCall) :
    Behaves setting tree call (perform setting tree call) ↔
      StatsCanBeStamped setting tree call := by
  have does : Does setting tree call (perform setting tree call) := does_perform call
  cases does with
  | refused unchanged fails stampable =>
    exact iff_of_true (behaves_refused unchanged fails) stampable
  | rejected path slug shown isReject isAnswer others =>
    subst isReject
    exact iff_of_true (behaves_rejected isAnswer others) trivial
  | replaced slug candidate content isApprove isSlug isLive replaces swapped answered =>
    rcases answered with ⟨stampable, shown, isAnswer⟩ | ⟨notStampable, raised, isAnswer⟩
    · exact iff_of_true (behaves_approved isApprove isSlug isLive replaces swapped isAnswer)
        stampable
    · refine iff_of_false (fun behaves => ?_) notStampable
      have fails : ¬ Succeeds (perform setting tree call).answer := by
        rw [isAnswer]
        exact id
      have same := congrFun (behaves.failed fails) (skillMd slug)
      rw [swapped.live, isLive] at same
      exact ne_of_replaces isSlug replaces (Option.some.inj same)

/-- In a run of approvals and rejections every live text always is the original one or a candidate
that passed the gates against the text it replaced, and every call keeps to what it may do, exactly
if no candidate passes for a skill whose statistics cannot be stamped. -/
theorem approved_skills_stay_gated_iff (setting : Setting Finite) (start : Tree)
    (calls : List ProposalCall) :
    Always (proposalStep setting) (Gated setting start) start calls ∧
        StepsMeet (proposalStep setting)
          (fun tree call => Behaves setting tree call (perform setting tree call)) start calls ↔
      StepsMeet (proposalStep setting) (StatsCanBeStamped setting) start calls := by
  refine always_and_stepsMeet_iff _ (fun tree call gated => ?_) (gated_start start)
  rw [behaves_iff call]
  refine and_iff_left ?_
  rintro next ⟨⟩
  exact gated_step gated (does_perform call)

end Runs

/-! ### An approval that raises after it has replaced the live text -/

section Example

def exampleSlug : Str := Str.ofString "ex"

def baselineText : String := "---\nname: ex\nversion: 1\n---\n# example"

def candidateText : String := "---\nname: ex\nversion: 2\n---\n# better"

/-- More opening brackets than the interpreter follows. -/
def deepText : String := String.ofList (List.replicate 1001 '[')

def exampleProposal : Proposal where
  slug := exampleSlug
  name := Str.ofString "1.md"

/-- The frontmatters of the example, as YAML reads them. -/
def exampleLoad : SafeLoad := fun block =>
  if block = "\nname: ex\nversion: 1" then
    .ok (some [("name", .str exampleSlug), ("version", .int 1)])
  else if block = "\nname: ex\nversion: 2" then
    .ok (some [("name", .str exampleSlug), ("version", .int 2)])
  else .error (.yamlError "")

def exampleSetting : Setting Worker.Queue.FloatLiteral where
  interpreter := Worker.Queue.literalInterpreter
  isPrintable := fun _ => true
  safeLoad := exampleLoad
  home := [Str.ofString "skills"]
  cwd := []

/-- A skill with a proposal that passes and statistics that are nested too deep. -/
def exampleTree : Tree :=
  (((((FileTree.empty.put (skillDir exampleSlug) .directory (by decide) (by decide)).put
    (skillMd exampleSlug) (.file baselineText.toUTF8) (by decide) (by decide)).put
    (Skills.Stats.sidecar (skillDir exampleSlug)) (.file deepText.toUTF8) (by decide)
    (by decide)).put (osPath [proposalsDir]) .directory (by decide) (by decide)).put
    (osPath [proposalsDir, exampleSlug]) .directory (by decide) (by decide)).put
    exampleProposal.md (.file candidateText.toUTF8) (by decide) (by decide)

def exampleCall : ProposalCall :=
  .approve (Str.ofString "/skills/.proposals/ex/1.md") (.returned true) []

theorem md_exampleTree : exampleTree.file exampleProposal.md = some candidateText.toUTF8 := by
  unfold exampleTree
  rw [FileTree.file_put, if_pos rfl]
  rfl

theorem live_exampleTree : exampleTree.file (skillMd exampleSlug) = some baselineText.toUTF8 := by
  unfold exampleTree
  rw [FileTree.file_put, if_neg (by decide), FileTree.file_put, if_neg (by decide),
    FileTree.file_put, if_neg (by decide), FileTree.file_put, if_neg (by decide),
    FileTree.file_put, if_pos rfl]
  rfl

theorem sidecar_exampleTree :
    exampleTree.file (Skills.Stats.sidecar (skillDir exampleSlug)) = some deepText.toUTF8 := by
  unfold exampleTree
  rw [FileTree.file_put, if_neg (by decide), FileTree.file_put, if_neg (by decide),
    FileTree.file_put, if_neg (by decide), FileTree.file_put, if_pos rfl]
  rfl

theorem not_stampable_deepText (now : JsonTexts.Text) :
    ¬ Stampable exampleSetting.interpreter now deepText.toUTF8 := by
  have codes : deepText.toList.map JsonTexts.codePoint =
      List.replicate (1000 + 1) JsonTexts.openBracket := by
    unfold deepText
    rw [String.toList_ofList, List.map_replicate]
    rfl
  rintro ⟨data, isRead, _⟩
  rw [Skills.Stats.readFd_of_tooDeep (codes ▸ JsonTexts.loads_brackets _ _ 1000)] at isRead
  cases isRead

theorem judge_exampleCall :
    judge exampleSetting exampleTree (Str.ofString "/skills/.proposals/ex/1.md")
      (.returned true) = .ok (.passed exampleProposal candidateText) := by
  have resolved : resolveProposal exampleSetting exampleTree
      (Str.ofString "/skills/.proposals/ex/1.md") = .ok exampleProposal := by
    rfl
  have isCandidate : readText exampleTree exampleProposal.md = .ok candidateText :=
    readText_eq_ok_iff.mpr ⟨_, _, md_exampleTree, textOf_toUTF8 _, by decide⟩
  have isBaseline : readText exampleTree (skillMd exampleSlug) = .ok baselineText :=
    readText_eq_ok_iff.mpr ⟨_, _, live_exampleTree, textOf_toUTF8 _, by decide⟩
  have ran : ∃ gates, runGates exampleSetting exampleSlug baselineText candidateText
      (.returned true) = .ok gates ∧ gates.all (·.passed) = true := by
    refine ⟨_, rfl, ?_⟩
    decide +kernel
  obtain ⟨gates, ran, passed⟩ := ran
  exact judge_of_passed resolved isCandidate live_exampleTree isBaseline ran passed

theorem nested_stats_break_an_approval :
    (∃ raised, (perform exampleSetting exampleTree exampleCall).answer = .error raised) ∧
      (perform exampleSetting exampleTree exampleCall).tree.file ≠ exampleTree.file := by
  obtain ⟨isSlug, isMd, content, isLive, replaces⟩ := judge_passed judge_exampleCall
  have isSwap : perform exampleSetting exampleTree exampleCall =
      swap exampleSetting exampleTree exampleProposal candidateText [] := by
    unfold exampleCall perform
    exact approveProposal_of_passed judge_exampleCall
  obtain ⟨swapped, ⟨stampable, _⟩ | ⟨_, raises⟩⟩ := swap_spec isSlug isMd isLive []
  · exact absurd (stampable _ sidecar_exampleTree) (not_stampable_deepText [])
  · rw [isSwap]
    refine ⟨raises, fun same => ?_⟩
    have sameLive := congrFun same (skillMd exampleProposal.slug)
    rw [swapped.live, isLive] at sameLive
    exact ne_of_replaces isSlug replaces (Option.some.inj sameLive)

end Example

end LiteHorse.Cli
