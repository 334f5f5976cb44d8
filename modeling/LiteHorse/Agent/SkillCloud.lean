/-
This file models the skill backend of the cloud turns: its calls read and write the user's skills,
but a skill of the config that the turn started with is read from there.

The main result says in which sequences of calls a view shows what the turn has written, shows
nothing it has deleted, and can be patched by what it shows. PyYAML and what the JSONB column
makes of a frontmatter are parameters, and so are the checks of the table.
-/

import LiteHorse.Library.Runs
import LiteHorse.Repositories.Effective
import LiteHorse.Repositories.UserScope
import LiteHorse.Security.Validators
import Mathlib.Data.List.DropRight

namespace LiteHorse.Agent.SkillCloud

open Python Repositories Runs Security Versions

/-! ### Texts -/

/-- The text before the first occurrence of a part, and the text after it. -/
def breakOn (part : List Char) : List Char → Option (List Char × List Char)
  | [] => if part.isEmpty then some ([], []) else none
  | char :: rest =>
    if part.isPrefixOf (char :: rest) then some ([], (char :: rest).drop part.length)
    else (breakOn part rest).map fun pieces => (char :: pieces.1, pieces.2)

/-- The occurrences of a part after some characters that are skipped, each after the end of the
one before. -/
def countFrom (part : List Char) : Nat → List Char → Nat
  | _, [] => 0
  | skip + 1, _ :: rest => countFrom part skip rest
  | 0, char :: rest =>
    if part.isPrefixOf (char :: rest) then countFrom part (part.length - 1) rest + 1
    else countFrom part 0 rest

/-- `text.count(part)` -/
def count (text part : String) : Nat :=
  if part = "" then text.length + 1 else countFrom part.toList 0 text.toList

/-- `text.replace(old, new, 1)` -/
def replaceFirst (text old new : String) : String :=
  match breakOn old.toList text.toList with
  | some (before, after) => String.ofList (before ++ new.toList ++ after)
  | none => text

/-- `text.lstrip("\n")` -/
def stripNewlines (text : List Char) : String :=
  String.ofList (text.dropWhile fun char => char = '\n')

/-- `_SLUG_RE.match`, whose end is also before a last newline. -/
def isSlug (slug : String) : Bool :=
  match slug.toList with
  | [] => false
  | first :: rest =>
    let rest := if rest.getLast? = some '\n' then rest.dropLast else rest
    let isStart (char : Char) := ('a' ≤ char && char ≤ 'z') || ('0' ≤ char && char ≤ '9')
    isStart first && rest.all (fun char => isStart char || char = '_' || char = '-') &&
      rest.length ≤ 63

def skillViewMaxBytes : Nat := 16 * 1024

def truncationMarker : String := "\n\n[... truncated by skill_view; full file on disk]"

/-- The characters that lie whole within the first bytes. -/
def within (limit : Nat) : List Char → List Char
  | [] => []
  | char :: rest =>
    if char.utf8Size ≤ limit then char :: within (limit - char.utf8Size) rest else []

/-- What a view shows of a text. -/
def shown (text : String) : String :=
  if skillViewMaxBytes < text.utf8ByteSize then
    String.ofList (within (skillViewMaxBytes - truncationMarker.length) text.toList) ++
      truncationMarker
  else text

/-- The text occurs at the same places in both. -/
def SamePlaces (text first second : String) : Prop :=
  ∀ place, text.toList.isPrefixOf (first.toList.drop place) =
    text.toList.isPrefixOf (second.toList.drop place)

section Count

variable {part : List Char}

theorem countFrom_eq_zero {text : List Char}
    (nowhere : ∀ place, part.isPrefixOf (text.drop place) = false) (skip : Nat) :
    countFrom part skip text = 0 := by
  induction text generalizing skip with
  | nil => cases skip <;> rfl
  | cons char rest inductionHypothesis =>
    have later : ∀ place, part.isPrefixOf (rest.drop place) = false :=
      fun place => nowhere (place + 1)
    cases skip with
    | zero =>
      have notHere : part.isPrefixOf (char :: rest) = false := nowhere 0
      unfold countFrom
      rw [notHere, if_neg Bool.false_ne_true, inductionHypothesis later]
    | succ skip => exact inductionHypothesis later skip

/-- The places of a part determine how often it is counted. -/
theorem countFrom_of_samePlaces (nonempty : part ≠ []) {first second : List Char}
    (same : ∀ place, part.isPrefixOf (first.drop place) = part.isPrefixOf (second.drop place))
    (skip : Nat) : countFrom part skip first = countFrom part skip second := by
  have notInNil : part.isPrefixOf [] = false := by
    cases part with
    | nil => exact absurd rfl nonempty
    | cons char rest => rfl
  induction first generalizing second skip with
  | nil =>
    rw [countFrom_eq_zero (fun place => by rw [List.drop_nil, notInNil]),
      countFrom_eq_zero (fun place => by rw [← same place, List.drop_nil, notInNil])]
  | cons char rest inductionHypothesis =>
    cases second with
    | nil =>
      rw [countFrom_eq_zero (fun place => by rw [same place, List.drop_nil, notInNil]),
        countFrom_eq_zero (fun place => by rw [List.drop_nil, notInNil])]
    | cons other others =>
      have later : ∀ place, part.isPrefixOf (rest.drop place) =
          part.isPrefixOf (others.drop place) := fun place => same (place + 1)
      cases skip with
      | succ skip => exact inductionHypothesis later skip
      | zero =>
        have here : part.isPrefixOf (char :: rest) = part.isPrefixOf (other :: others) := same 0
        unfold countFrom
        rw [here, inductionHypothesis later, inductionHypothesis later]

end Count

/-- What occurs once in a view occurs once in the text, unless it is a long text in which the
places are others. -/
theorem count_of_shown {text part : String}
    (long : skillViewMaxBytes < text.utf8ByteSize → SamePlaces part (shown text) text)
    (once : count (shown text) part = 1) : count text part = 1 := by
  by_cases isLong : skillViewMaxBytes < text.utf8ByteSize
  · unfold count at once ⊢
    by_cases empty : part = ""
    · rw [if_pos empty] at once
      have marked : truncationMarker.length ≤ (shown text).length := by
        unfold shown
        rw [if_pos isLong, String.length_append]
        exact Nat.le_add_left _ _
      have markerLength : truncationMarker.length = 50 := by decide
      omega
    · rw [if_neg empty] at once ⊢
      have nonempty : part.toList ≠ [] := fun isNil => empty (String.toList_eq_nil_iff.mp isNil)
      rw [← countFrom_of_samePlaces nonempty (long isLong)]
      exact once
  · have whole : shown text = text := if_neg isLong
    rw [whole] at once
    exact once

/-! ### Frontmatters -/

/-- YAML, and the column of the frontmatters. -/
structure Yaml (Mapping : Type) where
  /-- `yaml.safe_load`, where it gives a mapping. -/
  safeLoad : String → Option Mapping
  /-- The mapping as the JSONB column gives it back; none where the two columns do not take the
  mapping and the body. -/
  column : Mapping → String → Option (List (String × Json))
  /-- `yaml.safe_dump` without sorting the keys. -/
  safeDump : List (String × Json) → String

section Texts

variable {Mapping : Type} (yaml : Yaml Mapping)

/-- `_parse_md` -/
def parseMd (content : String) : Option (Mapping × String) :=
  if "---".toList.isPrefixOf content.toList then
    match breakOn "\n---".toList (content.toList.drop 3) with
    | some (block, body) =>
      (yaml.safeLoad (stripNewlines block)).map fun mapping => (mapping, stripNewlines body)
    | none => none
  else none

/-- `_serialise_md` -/
def serialiseMd (frontmatter : List (String × Json)) (body : String) : String :=
  String.ofList
      (("---\n" ++ strip (yaml.safeDump frontmatter) ++ "\n---\n\n" ++ body).toList.rdropWhile
        isSpace) ++ "\n"

/-- The text of a row. -/
def rowText (row : Row String Skill) : String :=
  serialiseMd yaml row.content.frontmatter row.content.body

/-- The text of a skill of the config. -/
def entryText (entry : ResolvedSkill) : String := serialiseMd yaml entry.frontmatter entry.body

end Texts

/-! ### The calls -/

inductive Call where
  | create (slug content : String)
  | patch (slug oldString newString : String)
  | edit (slug content : String)
  | delete (slug : String)
  | view (slug : String)
  | readMd (slug : String)

/-- What a call returns. -/
inductive Answer where
  | content (name content : String)
  | text (text : Option String)
  | path (path : String)
  | success
  | failure (error : String)
  deriving DecidableEq

inductive Raised where
  | database (error : Versions.Error)
  /-- The columns do not take the frontmatter and the body. -/
  | notStored

/-- What a call has done to a skill: the text it has written, or that of the skill it has
deleted. -/
inductive Deed where
  | written (text : String)
  | deleted (text : Option String)

structure Outcome where
  answer : Answer
  rows : List (UserRow Skill)
  deed : Option Deed

section Backend

variable {Mapping : Type} (isPrintable : Char → Bool) (yaml : Yaml Mapping)
  (accepts : UserRow Skill → Bool) (userId : String) (snapshot : List ResolvedSkill)
  (officials : List (Row String Skill))

def invalidName (slug : String) : Answer :=
  .failure ("invalid skill name " ++ reprString isPrintable slug ++ "; must be lowercase, " ++
    "alphanumeric + dash/underscore, max 64 chars, start with [a-z0-9]")

def doesNotExist (slug : String) : Answer :=
  .failure ("skill " ++ reprString isPrintable slug ++ " does not exist")

/-- The skill of the config that the turn started with. -/
def entryOf (slug : String) : Option ResolvedSkill := snapshot.find? fun entry => entry.slug = slug

/-- `get_official` -/
def getOfficial (slug : String) : Except Versions.Error (Option (Row String Skill)) :=
  scalarOneOrNone (officials.filter (Row.currentOf slug))

/-- `read_md`. A backend without a config reads as one with an empty config. -/
def readMd (rows : List (UserRow Skill)) (slug : String) :
    Except Versions.Error (Option String) :=
  match entryOf snapshot slug with
  | some entry => .ok (some (entryText yaml entry))
  | none => do
    match ← getUser rows slug with
    | some row => return some (rowText yaml row.row)
    | none => return (← getOfficial officials slug).map (rowText yaml)

def view (rows : List (UserRow Skill)) (slug : String) : Except Versions.Error Answer :=
  if isSlug slug then do
    match ← readMd yaml snapshot officials rows slug with
    | some text => return .content slug (shown text)
    | none => return .failure ("skill " ++ reprString isPrintable slug ++ " not found")
  else .ok (invalidName isPrintable slug)

/-- A call that changes nothing. -/
def answering (rows : List (UserRow Skill)) (answer : Answer) : Except Raised Outcome :=
  .ok { answer, rows, deed := none }

/-- `create_user`, under the checks of the table and its unique index. -/
def insertSkill (rows : List (UserRow Skill)) (slug : String)
    (frontmatter : List (String × Json)) (body : String) :
    Except Raised (List (UserRow Skill)) :=
  let row : UserRow Skill :=
    { row :=
        { name := slug
          version := 1
          isCurrent := true
          content := skillUserRepo.created userId { frontmatter, body } }
      agentId := none }
  if !accepts row || rows.any (fun other => other.row.currentOf slug) then
    .error (.database .integrityError)
  else .ok (rows ++ [row])

def create (rows : List (UserRow Skill)) (slug content : String) : Except Raised Outcome :=
  if isSlug slug then
    match parseMd yaml content with
    | none =>
      answering rows (.failure ("content must be a complete SKILL.md with YAML frontmatter " ++
        "(--- name: ... description: ... ---)"))
    | some (mapping, body) =>
      match checkUntrusted content with
      | .error unsafeContent =>
        answering rows (.failure ("unsafe skill content: " ++ unsafeContent))
      | .ok () => do
        match ← (getUser rows slug).mapError .database with
        | some _ =>
          answering rows (.failure ("skill " ++ reprString isPrintable slug ++ " already exists"))
        | none =>
          match yaml.column mapping body with
          | none => throw .notStored
          | some frontmatter =>
            let rows ← insertSkill accepts userId rows slug frontmatter body
            return { answer := .path ("skills/" ++ slug ++ "/SKILL.md")
                     rows
                     deed := some (.written (serialiseMd yaml frontmatter body)) }
  else answering rows (invalidName isPrintable slug)

/-- The UPDATE of `update_user` with a frontmatter and a body. -/
def overwrite (rows : List (UserRow Skill)) (slug : String) (mapping : Mapping) (body : String) :
    Except Raised Outcome :=
  match yaml.column mapping body with
  | none => throw .notStored
  | some frontmatter => do
    let updated ← (updateUser skillUserRepo userId rows slug
      { frontmatter := some frontmatter, body := some body }).mapError .database
    return { answer := .success
             rows := updated.getD rows
             deed := some (.written (serialiseMd yaml frontmatter body)) }

def patch (rows : List (UserRow Skill)) (slug oldString newString : String) :
    Except Raised Outcome := do
  match ← (getUser rows slug).mapError .database with
  | none => answering rows (doesNotExist isPrintable slug)
  | some row =>
    let text := rowText yaml row.row
    let found := count text oldString
    if found = 0 then answering rows (.failure "old_string not found")
    else if 1 < found then
      answering rows (.failure
        ("old_string matches " ++ toString found ++ " times; make it unique"))
    else
      let newText := replaceFirst text oldString newString
      match parseMd yaml newText with
      | none => answering rows (.failure "patch broke the YAML frontmatter")
      | some (mapping, body) =>
        match checkUntrusted newText with
        | .error unsafeContent =>
        answering rows (.failure ("unsafe skill content: " ++ unsafeContent))
        | .ok () => overwrite yaml userId rows slug mapping body

def edit (rows : List (UserRow Skill)) (slug content : String) : Except Raised Outcome :=
  match parseMd yaml content with
  | none => answering rows (.failure "content must include YAML frontmatter")
  | some (mapping, body) =>
    match checkUntrusted content with
    | .error unsafeContent => answering rows (.failure ("unsafe skill content: " ++ unsafeContent))
    | .ok () => do
      match ← (getUser rows slug).mapError .database with
      | none => answering rows (doesNotExist isPrintable slug)
      | some _ => overwrite yaml userId rows slug mapping body

/-- `delete_user` takes every row of the slug; what is shown of them is the current one. -/
def delete (rows : List (UserRow Skill)) (slug : String) : Except Raised Outcome :=
  match deleteUser rows slug with
  | none => answering rows (doesNotExist isPrintable slug)
  | some remaining =>
    .ok { answer := .success
          rows := remaining
          deed := some (.deleted
            ((rows.find? fun row => row.row.currentOf slug).map fun row => rowText yaml row.row)) }

/-! ### Turns -/

def Call.slug : Call → String
  | .create slug _ | .patch slug _ _ | .edit slug _ | .delete slug | .view slug | .readMd slug =>
    slug

def perform (rows : List (UserRow Skill)) : Call → Except Raised Outcome
  | .create slug content => create isPrintable yaml accepts userId rows slug content
  | .patch slug oldString newString => patch isPrintable yaml userId rows slug oldString newString
  | .edit slug content => edit isPrintable yaml userId rows slug content
  | .delete slug => delete isPrintable yaml rows slug
  | .view slug => do
    let answer ← (view isPrintable yaml snapshot officials rows slug).mapError .database
    answering rows answer
  | .readMd slug => do
    let text ← (readMd yaml snapshot officials rows slug).mapError .database
    answering rows (.text text)

structure State where
  rows : List (UserRow Skill)
  /-- What the turn has last done to each skill. -/
  deeds : String → Option Deed
  /-- The skill and the text that the call before has shown. -/
  viewed : Option (String × String)

/-- A turn that begins. -/
def State.start (rows : List (UserRow Skill)) : State := ⟨rows, fun _ => none, none⟩

def State.after (state : State) (slug : String) (outcome : Outcome) : State :=
  { rows := outcome.rows
    deeds :=
      match outcome.deed with
      | some deed => Function.update state.deeds slug (some deed)
      | none => state.deeds
    viewed :=
      match outcome.answer with
      | .content name content => some (name, content)
      | _ => none }

/-- A call that raises is rolled back. -/
def step (state : State) (call : Call) : Option State :=
  match perform isPrintable yaml accepts userId snapshot officials state.rows call with
  | .ok outcome => some (state.after call.slug outcome)
  | .error _ => some { state with viewed := none }

/-- A view shows what the turn has written and nothing that it has deleted, and a patch finds once
what occurs once in the view right before it. -/
def Promise (state : State) : Call → Prop
  | .view slug =>
    match state.deeds slug with
    | some (.written text) =>
      view isPrintable yaml snapshot officials state.rows slug = .ok (.content slug (shown text))
    | some (.deleted (some text)) =>
      view isPrintable yaml snapshot officials state.rows slug ≠ .ok (.content slug (shown text))
    | _ => True
  | .patch slug oldString _ =>
    ∀ content row, state.viewed = some (slug, content) → count content oldString = 1 →
      getUser state.rows slug = .ok (some row) → count (rowText yaml row.row) oldString = 1
  | _ => True

/-- The config shows no other text for a skill that the turn has written, and neither the config
nor, where it has no such skill, the official row shows the text of one that it has deleted.
Before a patch, the config shows no other text than the row, and what is cut off a long text hides
no place of the old string. -/
def Condition (state : State) : Call → Prop
  | .view slug =>
    match state.deeds slug with
    | some (.written text) =>
      isSlug slug ∧ ∀ entry, entryOf snapshot slug = some entry →
        shown (entryText yaml entry) = shown text
    | some (.deleted (some text)) =>
      isSlug slug →
        match entryOf snapshot slug with
        | some entry => shown (entryText yaml entry) ≠ shown text
        | none => ∀ official, getOfficial officials slug = .ok (some official) →
          shown (rowText yaml official) ≠ shown text
    | _ => True
  | .patch slug oldString _ =>
    ∀ content row, state.viewed = some (slug, content) → count content oldString = 1 →
      getUser state.rows slug = .ok (some row) →
        (∀ entry, entryOf snapshot slug = some entry →
          shown (entryText yaml entry) = shown (rowText yaml row.row)) ∧
        (skillViewMaxBytes < (rowText yaml row.row).utf8ByteSize →
          SamePlaces oldString (shown (rowText yaml row.row)) (rowText yaml row.row))
  | _ => True

/-! ### What a call leaves of the rows -/

/-- The rows are as the deed has left the skill. -/
def Holds (rows : List (UserRow Skill)) (slug : String) : Deed → Prop
  | .written text => ∃ row, getUser rows slug = .ok (some row) ∧ rowText yaml row.row = text
  | .deleted _ => getUser rows slug = .ok none

/-- A call that shows nothing has left the skill as its deed says, and the other skills alone. -/
structure Does (rows : List (UserRow Skill)) (slug : String) (outcome : Outcome) : Prop where
  own : ∀ deed, outcome.deed = some deed → Holds yaml outcome.rows slug deed
  unchanged : outcome.deed = none → outcome.rows = rows
  others : ∀ other, other ≠ slug → getUser outcome.rows other = getUser rows other
  shows_nothing : ∀ name content, outcome.answer ≠ .content name content

/-- The rows are as the turn's deeds have left them, and the view before would show the same
again. -/
structure Invariant (state : State) : Prop where
  deeds : ∀ slug deed, state.deeds slug = some deed → Holds yaml state.rows slug deed
  viewed : ∀ slug content, state.viewed = some (slug, content) →
    view isPrintable yaml snapshot officials state.rows slug = .ok (.content slug content)

variable {isPrintable yaml accepts userId snapshot officials} {rows next : List (UserRow Skill)}
  {slug : String} {outcome : Outcome}

/-- A call that goes on after a query has had its result. -/
theorem ok_of_bind {Value : Type} {result : Except Versions.Error Value}
    {rest : Value → Except Raised Outcome}
    (performed : (result.mapError Raised.database >>= rest) = .ok outcome) :
    ∃ value, result = .ok value ∧ rest value = .ok outcome := by
  cases result with
  | error error => cases performed
  | ok value => exact ⟨value, rfl, performed⟩

theorem holds_of_same {deed : Deed} (same : getUser next slug = getUser rows slug)
    (holds : Holds yaml rows slug deed) : Holds yaml next slug deed := by
  cases deed with
  | written text =>
    obtain ⟨row, found, isText⟩ := holds
    exact ⟨row, same.trans found, isText⟩
  | deleted text => exact same.trans holds

theorem answering_does {answer : Answer}
    (shows_nothing : ∀ name content, answer ≠ .content name content)
    (performed : answering rows answer = .ok outcome) : Does yaml rows slug outcome := by
  cases performed
  exact
    { own := fun deed isDeed => by cases isDeed
      unchanged := fun _ => rfl
      others := fun other _ => rfl
      shows_nothing }

theorem failure_does {error : String} (performed : answering rows (.failure error) = .ok outcome) :
    Does yaml rows slug outcome :=
  answering_does (fun name content same => by cases same) performed

theorem written_does {text : String} {answer : Answer}
    (written : Holds yaml next slug (.written text))
    (others : ∀ other, other ≠ slug → getUser next other = getUser rows other)
    (shows_nothing : ∀ name content, answer ≠ .content name content) :
    Does yaml rows slug { answer, rows := next, deed := some (.written text) } :=
  { own := fun deed isDeed => by
      cases isDeed
      exact written
    unchanged := fun isDeed => by cases isDeed
    others
    shows_nothing }

theorem insertSkill_ok {frontmatter : List (String × Json)} {body : String}
    (absent : getUser rows slug = .ok none)
    (inserted : insertSkill accepts userId rows slug frontmatter body = .ok next) :
    Holds yaml next slug (.written (serialiseMd yaml frontmatter body)) ∧
      ∀ other, other ≠ slug → getUser next other = getUser rows other := by
  unfold insertSkill at inserted
  dsimp only at inserted
  split at inserted
  · cases inserted
  · cases inserted
    refine ⟨⟨_, getUser_append_own absent ?_, rfl⟩, fun other isOther => ?_⟩
    · simp [Row.currentOf]
    · exact getUser_append_other isOther.symm

/-- Under the checks that the migrations have left, no skill is created. -/
theorem insertSkill_migrated (frontmatter : List (String × Json)) (body : String) :
    insertSkill (fun row => row.agentId.isSome) userId rows slug frontmatter body =
      (createUser skillUserRepo userId rows slug
        ({ frontmatter, body } : SkillCreateUser)).mapError .database := by
  have refused := createUser_refused skillUserRepo userId rows slug
    ({ frontmatter, body } : SkillCreateUser)
  exact (congrArg (Except.mapError Raised.database) refused).symm

theorem create_does {content : String}
    (performed : create isPrintable yaml accepts userId rows slug content = .ok outcome) :
    Does yaml rows slug outcome := by
  unfold create at performed
  split at performed
  case isFalse => exact failure_does performed
  case isTrue =>
    split at performed
    next => exact failure_does performed
    next mapping body parsed =>
      split at performed
      next => exact failure_does performed
      next safe =>
        obtain ⟨own, found, performed⟩ := ok_of_bind performed
        cases own with
        | some row => exact failure_does performed
        | none =>
          dsimp only at performed
          split at performed
          next => cases performed
          next frontmatter isColumn =>
            cases inserted : insertSkill accepts userId rows slug frontmatter body with
            | error error =>
              rw [inserted] at performed
              cases performed
            | ok next =>
              rw [inserted] at performed
              cases performed
              obtain ⟨written, others⟩ := insertSkill_ok found inserted
              exact written_does written others fun name content same => by cases same

theorem updateSkill {row : UserRow Skill} (found : getUser rows slug = .ok (some row))
    (frontmatter : List (String × Json)) (body : String) :
    updateUser skillUserRepo userId rows slug
        ({ frontmatter := some frontmatter, body := some body } : SkillUpdateUser) =
      .ok (some (rows.map fun row => row.update skillUserRepo userId slug
        ({ frontmatter := some frontmatter, body := some body } : SkillUpdateUser))) :=
  updateUser_of_found skillUserRepo userId found rfl

theorem overwrite_does {row : UserRow Skill} {mapping : Mapping} {body : String}
    (found : getUser rows slug = .ok (some row))
    (performed : overwrite yaml userId rows slug mapping body = .ok outcome) :
    Does yaml rows slug outcome := by
  unfold overwrite at performed
  split at performed
  next => cases performed
  next frontmatter isColumn =>
    rw [updateSkill found] at performed
    cases performed
    refine written_does ⟨_, getUser_map_update_own skillUserRepo userId _ found, rfl⟩ ?_ ?_
    · exact fun other isOther => getUser_map_update_other skillUserRepo userId _ isOther
    · exact fun name content same => by cases same

theorem patch_does {oldString newString : String}
    (performed : patch isPrintable yaml userId rows slug oldString newString = .ok outcome) :
    Does yaml rows slug outcome := by
  unfold patch at performed
  obtain ⟨own, found, performed⟩ := ok_of_bind performed
  cases own with
  | none => exact failure_does performed
  | some row =>
    dsimp only at performed
    split at performed
    · exact failure_does performed
    split at performed
    · exact failure_does performed
    split at performed
    · exact failure_does performed
    split at performed
    · exact failure_does performed
    · exact overwrite_does found performed

theorem edit_does {content : String}
    (performed : edit isPrintable yaml userId rows slug content = .ok outcome) :
    Does yaml rows slug outcome := by
  unfold edit at performed
  split at performed
  · exact failure_does performed
  split at performed
  · exact failure_does performed
  obtain ⟨own, found, performed⟩ := ok_of_bind performed
  cases own with
  | none => exact failure_does performed
  | some row => exact overwrite_does found performed

theorem delete_does (performed : delete isPrintable yaml rows slug = .ok outcome) :
    Does yaml rows slug outcome := by
  unfold delete at performed
  split at performed
  next => exact failure_does performed
  next remaining deleted =>
    cases performed
    obtain ⟨gone, others⟩ := deleteUser_some deleted
    exact
      { own := fun deed isDeed => by
          cases isDeed
          exact gone
        unchanged := fun isDeed => by cases isDeed
        others
        shows_nothing := fun name content same => by cases same }

/-! ### What is shown -/

instance decidableKept (state : State) (slug : String) :
    Decidable (Promise isPrintable yaml snapshot officials state (.view slug)) :=
  show Decidable (match state.deeds slug with
    | some (.written text) =>
      view isPrintable yaml snapshot officials state.rows slug = .ok (.content slug (shown text))
    | some (.deleted (some text)) =>
      view isPrintable yaml snapshot officials state.rows slug ≠ .ok (.content slug (shown text))
    | _ => True) from
  match state.deeds slug with
  | some (.written _) => inferInstance
  | some (.deleted (some _)) => inferInstance
  | some (.deleted none) | none => .isTrue trivial

theorem readMd_of_entry {entry : ResolvedSkill} (isEntry : entryOf snapshot slug = some entry) :
    readMd yaml snapshot officials rows slug = .ok (some (entryText yaml entry)) := by
  unfold readMd
  rw [isEntry]

theorem readMd_of_row {row : UserRow Skill} (noEntry : entryOf snapshot slug = none)
    (found : getUser rows slug = .ok (some row)) :
    readMd yaml snapshot officials rows slug = .ok (some (rowText yaml row.row)) := by
  unfold readMd
  rw [noEntry, found]
  rfl

theorem readMd_of_official (noEntry : entryOf snapshot slug = none)
    (absent : getUser rows slug = .ok none) :
    readMd yaml snapshot officials rows slug =
      (getOfficial officials slug).map fun official => official.map (rowText yaml) := by
  unfold readMd
  rw [noEntry, absent]
  change (getOfficial officials slug).bind _ = _
  cases getOfficial officials slug with
  | error error => rfl
  | ok official => rfl

/-- A view shows what is read of a skill. -/
theorem view_eq_content {name content : String} :
    view isPrintable yaml snapshot officials rows slug = .ok (.content name content) ↔
      isSlug slug ∧ name = slug ∧
        ∃ text, readMd yaml snapshot officials rows slug = .ok (some text) ∧
          shown text = content := by
  unfold view
  by_cases valid : isSlug slug
  · rw [if_pos valid]
    cases readMd yaml snapshot officials rows slug with
    | error error =>
      exact ⟨(fun same => by cases same), fun ⟨_, _, _, same, _⟩ => by cases same⟩
    | ok read =>
      cases read with
      | none => exact ⟨(fun same => by cases same), fun ⟨_, _, _, same, _⟩ => by cases same⟩
      | some text =>
        constructor
        · intro same
          cases same
          exact ⟨valid, rfl, text, rfl, rfl⟩
        · rintro ⟨_, rfl, other, same, rfl⟩
          cases same
          rfl
  · rw [if_neg valid]
    exact ⟨(fun same => by cases same), fun ⟨isValid, _⟩ => absurd isValid valid⟩

/-! ### Runs -/

variable {state next : State}

theorem invariant_start :
    Invariant isPrintable yaml snapshot officials (State.start rows) :=
  ⟨(fun slug deed isDeed => by cases isDeed), fun slug content isViewed => by cases isViewed⟩

theorem invariant_of_does (holds : Invariant isPrintable yaml snapshot officials state)
    (does : Does yaml state.rows slug outcome) :
    Invariant isPrintable yaml snapshot officials (state.after slug outcome) := by
  obtain ⟨answer, rows, deed⟩ := outcome
  refine ⟨fun other deed' isDeed => ?_, fun other content isViewed => ?_⟩
  · cases deed with
    | none =>
      have unchanged : rows = state.rows := does.unchanged rfl
      exact unchanged ▸ holds.deeds other deed' isDeed
    | some deed =>
      change Function.update state.deeds slug (some deed) other = some deed' at isDeed
      by_cases isOwn : other = slug
      · subst isOwn
        rw [Function.update_self] at isDeed
        exact does.own deed' isDeed
      · rw [Function.update_of_ne isOwn] at isDeed
        exact holds_of_same (does.others other isOwn) (holds.deeds other deed' isDeed)
  · cases answer with
    | content name shown => exact absurd rfl (does.shows_nothing name shown)
    | text text => cases isViewed
    | path path => cases isViewed
    | success => cases isViewed
    | failure error => cases isViewed

theorem invariant_of_view {answer : Answer}
    (holds : Invariant isPrintable yaml snapshot officials state)
    (viewed : view isPrintable yaml snapshot officials state.rows slug = .ok answer) :
    Invariant isPrintable yaml snapshot officials
      (state.after slug { answer, rows := state.rows, deed := none }) := by
  refine ⟨holds.deeds, fun other content isViewed => ?_⟩
  cases answer with
  | content name shown =>
    cases isViewed
    obtain ⟨_, isName, _⟩ := view_eq_content.mp viewed
    rw [isName]
    exact viewed.trans (by rw [isName])
  | text text => cases isViewed
  | path path => cases isViewed
  | success => cases isViewed
  | failure error => cases isViewed

theorem step_invariant {call : Call} (holds : Invariant isPrintable yaml snapshot officials state)
    (taken : step isPrintable yaml accepts userId snapshot officials state call = some next) :
    Invariant isPrintable yaml snapshot officials next := by
  unfold step at taken
  split at taken
  next outcome performed =>
    cases taken
    cases call with
    | create slug content =>
      dsimp only [perform] at performed
      exact invariant_of_does holds (create_does performed)
    | patch slug oldString newString =>
      dsimp only [perform] at performed
      exact invariant_of_does holds (patch_does performed)
    | edit slug content =>
      dsimp only [perform] at performed
      exact invariant_of_does holds (edit_does performed)
    | delete slug =>
      dsimp only [perform] at performed
      exact invariant_of_does holds (delete_does performed)
    | view slug =>
      dsimp only [perform] at performed
      obtain ⟨answer, viewed, performed⟩ := ok_of_bind performed
      cases performed
      exact invariant_of_view holds viewed
    | readMd slug =>
      dsimp only [perform] at performed
      obtain ⟨text, _, performed⟩ := ok_of_bind performed
      exact invariant_of_does holds
        (answering_does (fun name content same => by cases same) performed)
  next error performed =>
    cases taken
    exact ⟨holds.deeds, fun slug content isViewed => by cases isViewed⟩

theorem view_of_read {text content : String}
    (isRead : readMd yaml snapshot officials rows slug = .ok (some text)) :
    view isPrintable yaml snapshot officials rows slug = .ok (.content slug content) ↔
      isSlug slug ∧ shown text = content := by
  rw [view_eq_content, isRead]
  constructor
  · rintro ⟨valid, _, other, same, isShown⟩
    have isText : text = other := Option.some.inj (Except.ok.inj same)
    exact ⟨valid, isText ▸ isShown⟩
  · rintro ⟨valid, isShown⟩
    exact ⟨valid, rfl, text, rfl, isShown⟩

/-- A view shows what the config has of a skill before anything else. -/
theorem view_of_entry {entry : ResolvedSkill} {content : String}
    (isEntry : entryOf snapshot slug = some entry) :
    view isPrintable yaml snapshot officials rows slug = .ok (.content slug content) ↔
      isSlug slug ∧ shown (entryText yaml entry) = content :=
  view_of_read (readMd_of_entry isEntry)

theorem view_of_row {row : UserRow Skill} {content : String}
    (noEntry : entryOf snapshot slug = none) (found : getUser rows slug = .ok (some row)) :
    view isPrintable yaml snapshot officials rows slug = .ok (.content slug content) ↔
      isSlug slug ∧ shown (rowText yaml row.row) = content :=
  view_of_read (readMd_of_row noEntry found)

theorem view_of_absent {content : String} (noEntry : entryOf snapshot slug = none)
    (absent : getUser rows slug = .ok none) :
    view isPrintable yaml snapshot officials rows slug = .ok (.content slug content) ↔
      isSlug slug ∧ ∃ official, getOfficial officials slug = .ok (some official) ∧
        shown (rowText yaml official) = content := by
  rw [view_eq_content, readMd_of_official noEntry absent]
  constructor
  · rintro ⟨valid, _, text, same, isShown⟩
    refine ⟨valid, ?_⟩
    cases isOfficial : getOfficial officials slug with
    | error error =>
      rw [isOfficial] at same
      cases same
    | ok official =>
      rw [isOfficial] at same
      cases official with
      | none => cases same
      | some official =>
        have isText : rowText yaml official = text := Option.some.inj (Except.ok.inj same)
        exact ⟨official, rfl, isText ▸ isShown⟩
  · rintro ⟨valid, official, isOfficial, isShown⟩
    rw [isOfficial]
    exact ⟨valid, rfl, _, rfl, isShown⟩

/-- Of a view the condition is exact. -/
theorem view_promise_iff (holds : Invariant isPrintable yaml snapshot officials state) :
    Promise isPrintable yaml snapshot officials state (.view slug) ↔
      Condition yaml snapshot officials state (.view slug) := by
  dsimp only [Condition, Promise]
  cases isDeed : state.deeds slug with
  | none => exact Iff.rfl
  | some deed =>
    have left := holds.deeds slug deed isDeed
    cases deed with
    | written text =>
      obtain ⟨row, found, rfl⟩ := left
      cases isEntry : entryOf snapshot slug with
      | some entry => simp [view_of_entry isEntry]
      | none => simp [view_of_row isEntry found]
    | deleted text =>
      cases text with
      | none => exact Iff.rfl
      | some text =>
        cases isEntry : entryOf snapshot slug with
        | some entry => simp [view_of_entry isEntry]
        | none => simp [view_of_absent isEntry left]

theorem promise_of_condition {call : Call}
    (holds : Invariant isPrintable yaml snapshot officials state)
    (condition : Condition yaml snapshot officials state call) :
    Promise isPrintable yaml snapshot officials state call := by
  cases call with
  | create slug content => trivial
  | edit slug content => trivial
  | delete slug => trivial
  | readMd slug => trivial
  | view slug => exact (view_promise_iff holds).mpr condition
  | patch slug oldString newString =>
    intro content row isViewed once found
    obtain ⟨sameShown, long⟩ := condition content row isViewed once found
    have viewed := holds.viewed slug content isViewed
    have isShown : shown (rowText yaml row.row) = content := by
      cases isEntry : entryOf snapshot slug with
      | some entry =>
        exact (sameShown entry isEntry).symm.trans ((view_of_entry isEntry).mp viewed).2
      | none => exact ((view_of_row isEntry found).mp viewed).2
    refine count_of_shown long ?_
    rw [isShown]
    exact once

/-- Where neither the config nor an official has the skill, the condition is met by short texts. -/
theorem condition_of_short {call : Call} (valid : isSlug call.slug)
    (noEntry : entryOf snapshot call.slug = none)
    (noOfficial : getOfficial officials call.slug = .ok none)
    (short : ∀ row ∈ state.rows, (rowText yaml row.row).utf8ByteSize ≤ skillViewMaxBytes) :
    Condition yaml snapshot officials state call := by
  cases call with
  | create slug content => trivial
  | edit slug content => trivial
  | delete slug => trivial
  | readMd slug => trivial
  | view slug =>
    dsimp only [Condition, Call.slug] at valid noEntry noOfficial ⊢
    cases state.deeds slug with
    | none => trivial
    | some deed =>
      cases deed with
      | written text =>
        exact ⟨valid, fun entry isEntry => absurd (noEntry.symm.trans isEntry) (by simp)⟩
      | deleted text =>
        cases text with
        | none => trivial
        | some text =>
          intro _
          rw [noEntry]
          intro official isOfficial
          rw [noOfficial] at isOfficial
          cases isOfficial
  | patch slug oldString newString =>
    intro content row isViewed once found
    refine ⟨fun entry isEntry => absurd (noEntry.symm.trans isEntry) (by simp), ?_⟩
    have member : row ∈ state.rows.filter fun row => row.row.currentOf slug := by
      rw [getUser_eq_some.mp found]
      exact List.mem_singleton_self row
    exact fun long => absurd (short row (List.mem_filter.mp member).1) (Nat.not_le.mpr long)

/-- A turn keeps the promise in every call if it meets the condition in every call. -/
theorem readYourWrites
    (rows : List (UserRow Skill)) (calls : List Call)
    (meet : StepsMeet (step isPrintable yaml accepts userId snapshot officials)
      (Condition yaml snapshot officials) (State.start rows) calls) :
    StepsMeet (step isPrintable yaml accepts userId snapshot officials)
      (Promise isPrintable yaml snapshot officials) (State.start rows) calls :=
  stepsMeet_of_invariant _ (fun _ _ _ holds _ taken => step_invariant holds taken)
    (fun _ _ => promise_of_condition) invariant_start meet

end Backend

/-! ### A turn on one skill -/

/-- The flat mappings of words among the YAML documents. -/
def flatYaml : Yaml (List (String × Json)) where
  safeLoad block :=
    (splitAt '\n' block).mapM fun line =>
      (breakOn ": ".toList line.toList).map fun pieces =>
        (String.ofList pieces.1, .str (String.ofList pieces.2))
  column mapping _ := some mapping
  safeDump fields :=
    String.join (fields.map fun field => field.1 ++ ": " ++ field.2.toStr (fun _ => true) ++ "\n")

def briefText (body : String) : String := "---\nname: brief\n---\n\n" ++ body ++ "\n"

/-- A user's row of the skill. -/
def briefRow : UserRow Skill :=
  { row :=
      { name := "brief"
        version := 1
        isCurrent := true
        content := skillUserRepo.created "0a"
          ({ frontmatter := [("name", .str "brief")]
             body := "Be brief.\n" } : SkillCreateUser) }
    agentId := some (uuidOf "0b") }

/-- A turn of the user, under a config without officials. -/
abbrev briefStep (snapshot : List ResolvedSkill) : State → Call → Option State :=
  step (fun _ => true) flatYaml (fun row => row.agentId.isSome) "0a" snapshot []

theorem readYourWrites_brief :
    StepsMeet (briefStep []) (Promise (fun _ => true) flatYaml [] []) (State.start [briefRow])
      [.edit "brief" (briefText "Be terse."), .view "brief", .patch "brief" "terse" "short",
        .view "brief", .delete "brief", .view "brief"] := by
  have short : StepsMeet (briefStep [])
      (fun state call => isSlug call.slug ∧ ∀ row ∈ state.rows,
        (rowText flatYaml row.row).utf8ByteSize ≤ skillViewMaxBytes)
      (State.start [briefRow])
      [.edit "brief" (briefText "Be terse."), .view "brief", .patch "brief" "terse" "short",
        .view "brief", .delete "brief", .view "brief"] := by
    decide +kernel
  exact readYourWrites _ _
    (StepsMeet.mono _ (fun _ _ met => condition_of_short met.1 rfl rfl met.2) short)

/-- The skills of the config that a turn of the user starts with. -/
def briefConfig : List ResolvedSkill :=
  SkillRepo.listEffective (fun _ => true) [] [] [briefRow.row] []

/-- A view after an edit shows what the turn has started with. -/
theorem edited_skill_is_shown_as_before :
    ¬ StepsMeet (briefStep briefConfig) (Promise (fun _ => true) flatYaml briefConfig [])
      (State.start [briefRow]) [.edit "brief" (briefText "Be terse."), .view "brief"] := by
  rintro ⟨-, later⟩
  have isTaken : (briefStep briefConfig (State.start [briefRow])
      (.edit "brief" (briefText "Be terse."))).isSome := by
    decide +kernel
  have kept := (later _ (Option.some_get isTaken).symm).1
  revert isTaken
  decide +kernel

end LiteHorse.Agent.SkillCloud
