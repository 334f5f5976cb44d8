/-
This file models which skills are listed for a turn: the skills of a directory, and the skills
that are resolved already, are scored by one function and ranked.

PyYAML and `str.lower` are parameters, and so is how many digits `str` gives an integer. The text
of `USER.md` is given as it was read. Both ways list the same skills (`agrees_iff`), except that a
directory is read with the descriptions: where one of them cannot be shown, no skill of the
directory is listed.
-/

import LiteHorse.Agent.SkillCloud
import LiteHorse.Library.Delimited
import LiteHorse.Library.JsonSpaced
import LiteHorse.Library.Patterns
import LiteHorse.Library.Sorting
import LiteHorse.Strings
import Mathlib.Algebra.Order.Ring.Rat
import Mathlib.Data.List.Lex

namespace LiteHorse.Skills.Activation

open Agent.SkillCloud (breakOn stripNewlines)
open Delimited JsonTexts Patterns Python Sorting

/-! ### Values of a frontmatter -/

/-- A value that PyYAML reads. What `str` makes of it is `none` where an integer inside has too
many digits. -/
inductive YamlValue where
  | null
  | bool (value : Bool)
  | int (value : Int)
  | str (value : Text)
  | list (items : List YamlValue) (shown : Option Text)
  /-- The keys that are strings, and the values of the other ones. -/
  | dict (fields : List (Option Text × YamlValue)) (shown : Option Text)
  /-- A float, a date or bytes. -/
  | other (truthy : Bool) (shown : Text)

abbrev Fields := List (Option Text × YamlValue)

/-- `fields.get(key)` -/
def get (fields : Fields) (key : String) : Option YamlValue := fields.lookup (some (text key))

/-- `bool(value)` -/
def YamlValue.truthy : YamlValue → Bool
  | .null => false
  | .bool value => value
  | .int value => value != 0
  | .str value => !value.isEmpty
  | .list items _ => !items.isEmpty
  | .dict fields _ => !fields.isEmpty
  | .other truthy _ => truthy

inductive Raised where
  /-- The `ValueError` of an integer with too many digits. -/
  | tooManyDigits
  /-- What PyYAML raises other than its own errors. -/
  | yaml
deriving DecidableEq

/-- `yaml.safe_load` -/
inductive Loaded where
  | mapping (fields : Fields)
  | notMapping
  | yamlError
  | raised

/-! ### Rules -/

structure Rule where
  keywords : Option (List Text)
  fileGlobs : Option (List Text)
deriving DecidableEq

/-- The strings of a list that are not blank; `none` if it is no list. -/
def stringsOf : Option YamlValue → Option (List Text)
  | some (.list items _) =>
    some (items.filterMap fun
      | .str value => if stripText value = [] then none else some value
      | _ => none)
  | _ => none

def coerceRule (fields : Fields) : Option Rule :=
  let rule : Rule := {
    keywords := stringsOf (get fields "keywords")
    fileGlobs := stringsOf (get fields "file_globs") }
  if rule.keywords.isSome || rule.fileGlobs.isSome then some rule else none

def coerceRules : Option YamlValue → List Rule
  | some (.list items _) =>
    items.filterMap fun
      | .dict fields _ => coerceRule fields
      | _ => none
  | _ => []

structure SkillEntry where
  name : Text
  description : Text
  category : Option Text
  activateWhen : List Rule
deriving DecidableEq

def categoryOf (frontmatter : Fields) : Option Text :=
  match get frontmatter "category" with
  | some (.str value) => some (stripText value)
  | _ => none

/-! ### File globs -/

def char (value : Char) : CodePoint := codePoint value

/-- The symbols and the ranges between brackets. -/
def classItems : Text → List (CodePoint × CodePoint)
  | low :: dash :: high :: rest =>
    if dash = char '-' then (low, high) :: classItems rest
    else (low, low) :: classItems (dash :: high :: rest)
  | [first, second] => [(first, first), (second, second)]
  | [first] => [(first, first)]
  | [] => []

/-- A class in brackets, without the opening one: which symbols it has, and its length. -/
def bracket (glob : Text) : Option ((CodePoint → Bool) × Nat) :=
  let negated := glob.head? = some (char '!')
  let body := if negated then glob.tail else glob
  -- A closing bracket that comes first is one of the symbols.
  let inside := body.take 1 ++ body.tail.takeWhile (· ≠ char ']')
  if inside.length < body.length then
    let accepts (symbol : CodePoint) :=
      (classItems inside).any fun (low, high) => low ≤ symbol && symbol ≤ high
    some (fun symbol => accepts symbol != negated,
      inside.length + 1 + if negated then 1 else 0)
  else none

/-- The patterns of a glob, after some symbols that are skipped. -/
def globPatterns : Nat → Text → List (Pattern CodePoint)
  | _, [] => []
  | skip + 1, _ :: rest => globPatterns skip rest
  | 0, symbol :: rest =>
    if symbol = char '*' then .many (fun _ => true) :: globPatterns 0 rest
    else if symbol = char '?' then .one (fun _ => true) :: globPatterns 0 rest
    else if symbol = char '[' then
      match bracket rest with
      | some (accepts, length) => .one accepts :: globPatterns length rest
      | none => .one (· = symbol) :: globPatterns 0 rest
    else .one (· = symbol) :: globPatterns 0 rest

/-- `fnmatch.fnmatch(name, glob)` -/
def fnmatch (name glob : Text) : Bool :=
  ((Pattern.sequence (globPatterns 0 glob)).rests name).contains []

def tokenSeparators : List Char :=
  [',', ';', ':', '!', '?', '\x22', '\x27', '(', ')', '[', ']', '\x7b', '\x7d', '<', '>']

/-- The pieces that `_TOKEN_SPLIT` leaves, and an empty one between two separators. -/
def tokens (userText : Text) : List Text :=
  userText.splitOnP fun symbol => isSpacePoint symbol || (tokenSeparators.map char).contains symbol

def globMatchesAnyToken (glob userText : Text) : Bool :=
  (tokens userText).any fun rawTok =>
    let tok := trim (fun symbol => symbol = char '.' || symbol = char ',') rawTok
    !tok.isEmpty && fnmatch tok glob

/-! ### Scores -/

def alwaysOnScore : ℚ := 1 / 2

def keywordInTextScore : ℚ := 2

def keywordInProfileScore : ℚ := 1

def globMatchScore : ℚ := 2

section Scores

variable (lower : Text → Text) (userText profile : Text)

def keywordScore (keyword : Text) : ℚ :=
  let kwLower := lower keyword
  if kwLower ≠ [] ∧ kwLower <:+: lower userText then keywordInTextScore
  else if kwLower ≠ [] ∧ lower profile ≠ [] ∧ kwLower <:+: lower profile then keywordInProfileScore
  else 0

def globScore (glob : Text) : ℚ := if globMatchesAnyToken glob userText then globMatchScore else 0

def ruleScore (score : ℚ) (rule : Rule) : ℚ :=
  let withKeywords := (rule.keywords.getD []).foldl
    (fun score keyword => score + keywordScore lower userText profile keyword) score
  (rule.fileGlobs.getD []).foldl (fun score glob => score + globScore userText glob) withKeywords

/-- `_score_entry`, of the rules of the entry. -/
def scoreRules (rules : List Rule) : ℚ :=
  if rules = [] then alwaysOnScore else rules.foldl (ruleScore lower userText profile) 0

end Scores

/-! ### Ranking -/

section Ranking

variable {Value Other : Type} (scoreOf : Value → ℚ) (nameOf : Value → Text)

/-- `values[:stop]` -/
def sliceTo (stop : Int) (values : List Value) : List Value :=
  if 0 ≤ stop then values.take stop.toNat else values.take (values.length - stop.natAbs)

/-- The values with a positive score, by descending score and then by name. -/
def ranking (values : List Value) : List Value :=
  sortedBy (fun value => toLex (-scoreOf value, nameOf value))
    (values.filter fun value => 0 < scoreOf value)

theorem map_sliceTo (view : Value → Other) (stop : Int) (values : List Value) :
    (sliceTo stop values).map view = sliceTo stop (values.map view) := by
  unfold sliceTo
  split
  next => exact List.map_take
  next => rw [List.map_take, List.length_map]

/-- A view that keeps the scores and the names keeps the ranking. -/
theorem map_ranking (view : Value → Other) {scoreOfView : Other → ℚ} {nameOfView : Other → Text}
    (sameScore : ∀ value, scoreOfView (view value) = scoreOf value)
    (sameName : ∀ value, nameOfView (view value) = nameOf value) (values : List Value) :
    (ranking scoreOf nameOf values).map view =
      ranking scoreOfView nameOfView (values.map view) := by
  have sameTest : ((fun other => decide (0 < scoreOfView other)) ∘ view) =
      fun value => decide (0 < scoreOf value) := by
    funext value
    show decide (0 < scoreOfView (view value)) = decide (0 < scoreOf value)
    rw [sameScore]
  unfold ranking
  rw [List.filter_map, sameTest]
  refine map_sortedBy _ _ view _ fun value _ => ?_
  rw [sameScore, sameName]

theorem nodup_keys {values : List Value} (distinct : (values.map nameOf).Nodup) :
    (values.map fun value => toLex (-scoreOf value, nameOf value)).Nodup := by
  refine List.Nodup.of_map (fun key : Lex (ℚ × Text) => (ofLex key).2) ?_
  rw [List.map_map]
  exact distinct

/-- The order in which values with distinct names are given does not matter. -/
theorem ranking_eq_of_perm {first second : List Value} (perm : first.Perm second)
    (distinct : (first.map nameOf).Nodup) :
    ranking scoreOf nameOf first = ranking scoreOf nameOf second := by
  refine sortedBy_eq_of_perm _ (perm.filter _) (nodup_keys scoreOf nameOf ?_)
  exact distinct.sublist (List.filter_sublist.map nameOf)

/-- Where the names are distinct, one value is strictly before another: its score is greater, or
the scores are the same and its name comes first. -/
theorem ranking_pairwise {values : List Value} (distinct : (values.map nameOf).Nodup) :
    (ranking scoreOf nameOf values).Pairwise fun first second =>
      scoreOf second < scoreOf first ∨
        scoreOf first = scoreOf second ∧ nameOf first < nameOf second := by
  have distinctRanking : ((ranking scoreOf nameOf values).map nameOf).Nodup := by
    refine (((sortedBy_perm _ _).map nameOf).nodup_iff).mpr ?_
    exact distinct.sublist (List.filter_sublist.map nameOf)
  refine (List.Pairwise.and (sortedBy_pairwise _ _) (List.pairwise_map.mp distinctRanking)).imp ?_
  rintro first second ⟨notAfter, otherName⟩
  rcases Prod.Lex.toLex_le_toLex.mp notAfter with less | ⟨same, names⟩
  · exact Or.inl (neg_lt_neg_iff.mp less)
  · exact Or.inr ⟨neg_inj.mp same, lt_of_le_of_ne names otherName⟩

/-- What both ways list of their skills. -/
def listed (lower : Text → Text) (rulesOf : Value → List Rule) (profile : Text)
    (userText : Option Text) (topK : Int) (values : List Value) : List Value :=
  if values = [] then []
  else match userText with
    | none => sortedBy nameOf values
    | some userText =>
      sliceTo topK
        (ranking (fun value => scoreRules lower userText profile (rulesOf value)) nameOf values)

end Ranking

/-! ### The skills of a directory -/

/-- An entry of the skills directory. `skillMd` is there if it has a `SKILL.md`, with its text
unless reading it raises. -/
structure DirChild where
  name : Text
  isDir : Bool
  skillMd : Option (Option String)

structure SkillsDir where
  children : List DirChild
  distinct : (children.map (·.name)).Nodup

/-- A directory with a `SKILL.md`. -/
structure DiskSkill where
  name : Text
  content : Option String

def skillOf (child : DirChild) : Option DiskSkill :=
  if child.isDir then
    child.skillMd.map fun content => { name := child.name, content }
  else none

section Disk

variable (maxStrDigits : Nat) (safeLoad : String → Loaded)

def parseFrontmatter (content : String) : Except Raised Fields :=
  if "---".toList.isPrefixOf content.toList then
    match breakOn "\n---".toList (content.toList.drop 3) with
    | none => .ok []
    | some (block, _) =>
      match safeLoad (stripNewlines block) with
      | .mapping fields => .ok fields
      | .notMapping | .yamlError => .ok []
      | .raised => .error .yaml
  else .ok []

/-- The frontmatter of a skill; there is none if its file cannot be read. -/
def frontmatterOf (skill : DiskSkill) : Except Raised Fields :=
  match skill.content with
  | none => .ok []
  | some content => parseFrontmatter safeLoad content

/-- `str(value)` -/
def YamlValue.toStr : YamlValue → Option Text
  | .null => some (text "None")
  | .bool value => some (text (if value then "True" else "False"))
  | .int value =>
    if (toString value.natAbs).length ≤ maxStrDigits then some (text (toString value)) else none
  | .str value => some value
  | .list _ shown => shown
  | .dict _ shown => shown
  | .other _ shown => some shown

/-- `str(fields.get("description") or "").strip()` -/
def descriptionOf (frontmatter : Fields) : Option Text :=
  match get frontmatter "description" with
  | some value => if value.truthy then (value.toStr maxStrDigits).map stripText else some []
  | none => some []

def parseSkill (skill : DiskSkill) : Except Raised SkillEntry :=
  match skill.content with
  | none => .ok { name := skill.name, description := [], category := none, activateWhen := [] }
  | some content => do
    let frontmatter ← parseFrontmatter safeLoad content
    match descriptionOf maxStrDigits frontmatter with
    | none => .error .tooManyDigits
    | some description => return {
        name := skill.name
        description
        category := categoryOf frontmatter
        activateWhen := coerceRules (get frontmatter "activate_when") }

/-- The skills of the directory, which may not exist, by name. -/
def diskSkills (dir : Option SkillsDir) : List DiskSkill :=
  match dir with
  | none => []
  | some dir => (sortedBy (·.name) dir.children).filterMap skillOf

def loadAll (dir : Option SkillsDir) : Except Raised (List SkillEntry) :=
  (diskSkills dir).mapM (parseSkill maxStrDigits safeLoad)

variable (lower : Text → Text)

def filterForTurn (dir : Option SkillsDir) (profile : Text) (userText : Option Text)
    (topK : Int) : Except Raised (List SkillEntry) := do
  let entries ← loadAll maxStrDigits safeLoad dir
  return listed (·.name) lower (·.activateWhen) profile userText topK entries

end Disk

/-! ### Resolved skills -/

structure ResolvedSkill where
  slug : Text
  description : Text
  frontmatter : Fields

def resolvedToEntry (skill : ResolvedSkill) : SkillEntry where
  name := skill.slug
  description := skill.description
  category := categoryOf skill.frontmatter
  activateWhen := coerceRules (get skill.frontmatter "activate_when")

def filterResolvedForTurn (lower : Text → Text) (skills : List ResolvedSkill) (profile : Text)
    (userText : Option Text) (topK : Int) : List ResolvedSkill :=
  listed (·.slug) lower (fun skill => (resolvedToEntry skill).activateWhen) profile userText topK
    skills

/-! ### What is listed -/

section Listed

variable {Value Other : Type} {nameOf : Value → Text} {rulesOf : Value → List Rule}
  {lower : Text → Text} {profile : Text} {userText : Option Text}

/-- All values by name without a text, and else the first of those with a positive score, by
descending score and then by name. -/
def Selects (nameOf : Value → Text) (scoreOf : Option (Value → ℚ)) (topK : Nat)
    (values selected : List Value) : Prop :=
  match scoreOf with
  | none =>
    selected.Perm values ∧ selected.Pairwise fun first second => nameOf first < nameOf second
  | some scoreOf =>
    ∃ ranked : List Value, ranked.Perm (values.filter fun value => 0 < scoreOf value) ∧
      ranked.Pairwise (fun first second => scoreOf second < scoreOf first ∨
        scoreOf first = scoreOf second ∧ nameOf first < nameOf second) ∧
      selected = ranked.take topK

/-- Without values nothing is listed anyway. -/
theorem listed_eq (topK : Int) (values : List Value) :
    listed nameOf lower rulesOf profile userText topK values =
      match userText with
      | none => sortedBy nameOf values
      | some userText =>
        sliceTo topK
          (ranking (fun value => scoreRules lower userText profile (rulesOf value)) nameOf
            values) := by
  unfold listed
  split
  next isEmpty =>
    rw [isEmpty]
    cases userText with
    | none => rfl
    | some userText =>
      show [] = sliceTo topK []
      unfold sliceTo
      rw [List.take_nil, List.take_nil, ite_self]
  next => rfl

theorem listed_selects {values : List Value} (distinct : (values.map nameOf).Nodup) (topK : Nat) :
    Selects nameOf
      (userText.map fun userText value => scoreRules lower userText profile (rulesOf value)) topK
      values (listed nameOf lower rulesOf profile userText topK values) := by
  rw [listed_eq]
  cases userText with
  | none =>
    have distinctSorted := ((sortedBy_perm nameOf values).map nameOf).nodup_iff.mpr distinct
    refine ⟨sortedBy_perm nameOf values, (List.Pairwise.and (sortedBy_pairwise nameOf values)
      (List.pairwise_map.mp distinctSorted)).imp ?_⟩
    exact fun both => lt_of_le_of_ne both.1 both.2
  | some userText =>
    refine ⟨ranking (fun value => scoreRules lower userText profile (rulesOf value)) nameOf values,
      sortedBy_perm _ _, ranking_pairwise _ _ distinct, ?_⟩
    show sliceTo topK _ = _
    unfold sliceTo
    rw [if_pos (Int.natCast_nonneg topK), Int.toNat_natCast]

theorem map_listed (view : Value → Other) {nameOfView : Other → Text}
    {rulesOfView : Other → List Rule} (sameName : ∀ value, nameOfView (view value) = nameOf value)
    (sameRules : ∀ value, rulesOfView (view value) = rulesOf value) (topK : Int)
    (values : List Value) :
    (listed nameOf lower rulesOf profile userText topK values).map view =
      listed nameOfView lower rulesOfView profile userText topK (values.map view) := by
  rw [listed_eq, listed_eq]
  cases userText with
  | none => exact map_sortedBy _ _ view values fun value _ => sameName value
  | some userText =>
    dsimp only
    rw [map_sliceTo]
    refine congrArg (sliceTo topK) (map_ranking _ _ view (fun value => ?_) sameName values)
    rw [sameRules]

/-- The names that are listed depend on the names and the rules only. -/
theorem names_listed (topK : Int) (values : List Value) :
    (listed nameOf lower rulesOf profile userText topK values).map nameOf =
      (listed Prod.fst lower Prod.snd profile userText topK
        (values.map fun value => (nameOf value, rulesOf value))).map Prod.fst := by
  rw [← map_listed (fun value => (nameOf value, rulesOf value)) (fun _ => rfl) (fun _ => rfl),
    List.map_map]
  rfl

theorem listed_eq_of_perm {first second : List Value} (perm : first.Perm second)
    (distinct : (first.map nameOf).Nodup) (topK : Int) :
    listed nameOf lower rulesOf profile userText topK first =
      listed nameOf lower rulesOf profile userText topK second := by
  rw [listed_eq, listed_eq]
  cases userText with
  | none => exact sortedBy_eq_of_perm nameOf perm distinct
  | some userText => exact congrArg (sliceTo topK) (ranking_eq_of_perm _ _ perm distinct)

end Listed

/-! ### Both ways -/

section Both

variable {maxStrDigits : Nat} {safeLoad : String → Loaded} {lower : Text → Text}
  {dir : Option SkillsDir} {skills : List ResolvedSkill} {profile : Text}
  {userText : Option Text} {topK : Nat}

variable (safeLoad dir skills) in
/-- The resolved skills are those of the directory, in any order, with their frontmatter. -/
def Corresponds : Prop :=
  (skills.map fun skill => (skill.slug, Except.ok skill.frontmatter)).Perm
    ((diskSkills dir).map fun skill => (skill.name, frontmatterOf safeLoad skill))

variable (maxStrDigits safeLoad lower dir skills profile userText topK) in
/-- The directory and the resolved skills list the same names in the same order, whatever order
the skills are given in. -/
structure Agrees : Prop where
  sameNames : ∃ entries, filterForTurn maxStrDigits safeLoad lower dir profile userText topK =
    .ok entries ∧ entries.map (·.name) =
      (filterResolvedForTurn lower skills profile userText topK).map (·.slug)
  selects : Selects (·.slug) (userText.map fun userText skill =>
    scoreRules lower userText profile (resolvedToEntry skill).activateWhen) topK skills
      (filterResolvedForTurn lower skills profile userText topK)
  anyOrder : ∀ other : List ResolvedSkill, other.Perm skills →
    filterResolvedForTurn lower other profile userText topK =
      filterResolvedForTurn lower skills profile userText topK
  anyDirOrder : ∀ first second : SkillsDir, dir = some first →
    second.children.Perm first.children →
      filterForTurn maxStrDigits safeLoad lower (some second) profile userText topK =
        filterForTurn maxStrDigits safeLoad lower dir profile userText topK

/-! ### Reading the directory -/

def rulesIn : Except Raised Fields → List Rule
  | .ok frontmatter => coerceRules (get frontmatter "activate_when")
  | .error _ => []

theorem parseSkill_of_shown {skill : DiskSkill} {frontmatter : Fields}
    (parsed : frontmatterOf safeLoad skill = .ok frontmatter)
    (shown : (descriptionOf maxStrDigits frontmatter).isSome) :
    ∃ entry, parseSkill maxStrDigits safeLoad skill = .ok entry ∧ entry.name = skill.name ∧
      entry.activateWhen = rulesIn (frontmatterOf safeLoad skill) := by
  obtain ⟨description, isShown⟩ := Option.isSome_iff_exists.mp shown
  rw [parsed]
  unfold parseSkill
  unfold frontmatterOf at parsed
  cases isContent : skill.content with
  | none =>
    rw [isContent] at parsed
    cases parsed
    exact ⟨_, rfl, rfl, rfl⟩
  | some content =>
    rw [isContent] at parsed
    dsimp only at parsed ⊢
    rw [parsed]
    dsimp only [bind, Except.bind]
    rw [isShown]
    exact ⟨_, rfl, rfl, rfl⟩

theorem parseSkill_of_not_shown {skill : DiskSkill} {frontmatter : Fields}
    (parsed : frontmatterOf safeLoad skill = .ok frontmatter)
    (notShown : ¬ (descriptionOf maxStrDigits frontmatter).isSome) :
    parseSkill maxStrDigits safeLoad skill = .error .tooManyDigits := by
  rw [Option.not_isSome_iff_eq_none] at notShown
  unfold parseSkill
  unfold frontmatterOf at parsed
  cases isContent : skill.content with
  | none =>
    rw [isContent] at parsed
    cases parsed
    cases notShown
  | some content =>
    rw [isContent] at parsed
    dsimp only at parsed ⊢
    rw [parsed]
    dsimp only [bind, Except.bind]
    rw [notShown]

/-- The names and the rules that the directory gives. -/
theorem mapM_parseSkill {disk : List DiskSkill}
    (shown : ∀ skill ∈ disk, ∃ frontmatter, frontmatterOf safeLoad skill = .ok frontmatter ∧
      (descriptionOf maxStrDigits frontmatter).isSome) :
    ∃ entries, disk.mapM (parseSkill maxStrDigits safeLoad) = .ok entries ∧
      entries.map (fun entry => (entry.name, entry.activateWhen)) =
        disk.map fun skill => (skill.name, rulesIn (frontmatterOf safeLoad skill)) := by
  induction disk with
  | nil => exact ⟨[], rfl, rfl⟩
  | cons skill rest inductionHypothesis =>
    obtain ⟨⟨frontmatter, parsed, isShown⟩, restShown⟩ := List.forall_mem_cons.mp shown
    obtain ⟨entry, isEntry, isName, areRules⟩ := parseSkill_of_shown parsed isShown
    obtain ⟨entries, areEntries, same⟩ := inductionHypothesis restShown
    refine ⟨entry :: entries, ?_, ?_⟩
    · rw [List.mapM_cons, isEntry, areEntries]
      rfl
    · rw [List.map_cons, List.map_cons, same, isName, areRules]

theorem nodup_diskSkills (dir : Option SkillsDir) :
    ((diskSkills dir).map (·.name)).Nodup := by
  have names : ∀ children : List DirChild,
      ((children.filterMap skillOf).map (·.name)).Sublist (children.map (·.name)) := by
    intro children
    induction children with
    | nil => exact List.Sublist.slnil
    | cons child rest inductionHypothesis =>
      cases isSkill : skillOf child with
      | none =>
        rw [List.filterMap_cons_none isSkill]
        exact inductionHypothesis.cons _
      | some skill =>
        rw [List.filterMap_cons_some isSkill]
        have sameName : skill.name = child.name := by
          unfold skillOf at isSkill
          split at isSkill
          next =>
            obtain ⟨content, _, rfl⟩ := Option.map_eq_some_iff.mp isSkill
            rfl
          next => cases isSkill
        rw [List.map_cons, List.map_cons, sameName]
        exact inductionHypothesis.cons_cons _
  cases dir with
  | none => exact List.nodup_nil
  | some dir =>
    have sorted : ((sortedBy (·.name) dir.children).map (·.name)).Nodup :=
      ((sortedBy_perm _ _).map _).nodup_iff.mpr dir.distinct
    exact sorted.sublist (names _)

theorem diskSkills_eq_of_perm {first second : SkillsDir}
    (perm : second.children.Perm first.children) :
    diskSkills (some second) = diskSkills (some first) :=
  congrArg (List.filterMap skillOf) (sortedBy_eq_of_perm _ perm second.distinct)

/-! ### Agreement -/

theorem Corresponds.nodup (corresponds : Corresponds safeLoad dir skills) :
    (skills.map (·.slug)).Nodup := by
  have slugs := corresponds.map Prod.fst
  rw [List.map_map, List.map_map] at slugs
  exact slugs.nodup_iff.mpr (nodup_diskSkills dir)

/-- The names and the rules are the same both ways. -/
theorem Corresponds.rules (corresponds : Corresponds safeLoad dir skills) :
    (skills.map fun skill => (skill.slug, (resolvedToEntry skill).activateWhen)).Perm
      ((diskSkills dir).map fun skill => (skill.name, rulesIn (frontmatterOf safeLoad skill))) := by
  have mapped := corresponds.map fun entry => (entry.1, rulesIn entry.2)
  rw [List.map_map, List.map_map] at mapped
  exact mapped

theorem Corresponds.exists_disk (corresponds : Corresponds safeLoad dir skills)
    {skill : ResolvedSkill} (member : skill ∈ skills) :
    ∃ disk ∈ diskSkills dir, frontmatterOf safeLoad disk = .ok skill.frontmatter := by
  have inSkills := List.mem_map_of_mem
    (f := fun skill => (skill.slug, (Except.ok skill.frontmatter : Except Raised Fields))) member
  obtain ⟨disk, inDisk, same⟩ := List.mem_map.mp (corresponds.mem_iff.mp inSkills)
  exact ⟨disk, inDisk, congrArg Prod.snd same⟩

theorem Corresponds.exists_resolved (corresponds : Corresponds safeLoad dir skills)
    {disk : DiskSkill} (member : disk ∈ diskSkills dir) :
    ∃ skill ∈ skills, frontmatterOf safeLoad disk = .ok skill.frontmatter := by
  have inDisk := List.mem_map_of_mem
    (f := fun skill => (skill.name, frontmatterOf safeLoad skill)) member
  obtain ⟨skill, inSkills, same⟩ := List.mem_map.mp (corresponds.mem_iff.mpr inDisk)
  exact ⟨skill, inSkills, (congrArg Prod.snd same).symm⟩

theorem filterForTurn_of_loadAll {entries : List SkillEntry}
    (loaded : loadAll maxStrDigits safeLoad dir = .ok entries) :
    filterForTurn maxStrDigits safeLoad lower dir profile userText topK =
      .ok (listed (·.name) lower (·.activateWhen) profile userText topK entries) := by
  unfold filterForTurn
  rw [loaded]
  rfl

/-- The names are those of the resolved skills. -/
theorem Corresponds.names (corresponds : Corresponds safeLoad dir skills)
    {entries : List SkillEntry}
    (same : entries.map (fun entry => (entry.name, entry.activateWhen)) =
      (diskSkills dir).map fun skill => (skill.name, rulesIn (frontmatterOf safeLoad skill)))
    (topK : Int) :
    (listed (·.name) lower (·.activateWhen) profile userText topK entries).map (·.name) =
      (filterResolvedForTurn lower skills profile userText topK).map (·.slug) := by
  have perm : (entries.map fun entry => (entry.name, entry.activateWhen)).Perm
      (skills.map fun skill => (skill.slug, (resolvedToEntry skill).activateWhen)) := by
    rw [same]
    exact corresponds.rules.symm
  have distinct :
      ((entries.map fun entry => (entry.name, entry.activateWhen)).map Prod.fst).Nodup := by
    rw [same, List.map_map]
    exact nodup_diskSkills dir
  have sameListed : listed Prod.fst lower Prod.snd profile userText topK _ =
      listed Prod.fst lower Prod.snd profile userText topK _ := listed_eq_of_perm perm distinct topK
  exact (names_listed topK entries).trans
    ((congrArg (List.map Prod.fst) sameListed).trans (names_listed topK skills).symm)

/-- The directory and the resolved skills list the same exactly if each description can be
shown. -/
theorem agrees_iff (corresponds : Corresponds safeLoad dir skills) :
    Agrees maxStrDigits safeLoad lower dir skills profile userText topK ↔
      ∀ skill ∈ skills, (descriptionOf maxStrDigits skill.frontmatter).isSome := by
  constructor
  · rintro ⟨⟨entries, ran, _⟩, _, _, _⟩ skill member
    obtain ⟨disk, inDisk, parsed⟩ := corresponds.exists_disk member
    by_contra notShown
    have failed := parseSkill_of_not_shown parsed notShown
    cases loaded : loadAll maxStrDigits safeLoad dir with
    | error raised =>
      unfold filterForTurn at ran
      rw [loaded] at ran
      cases ran
    | ok items =>
      obtain ⟨entry, isEntry⟩ := ok_of_mapM loaded disk inDisk
      rw [failed] at isEntry
      cases isEntry
  · intro shown
    have diskShown : ∀ disk ∈ diskSkills dir, ∃ frontmatter,
        frontmatterOf safeLoad disk = .ok frontmatter ∧
          (descriptionOf maxStrDigits frontmatter).isSome := by
      intro disk inDisk
      obtain ⟨skill, member, parsed⟩ := corresponds.exists_resolved inDisk
      exact ⟨skill.frontmatter, parsed, shown skill member⟩
    obtain ⟨entries, loaded, same⟩ := mapM_parseSkill diskShown
    constructor
    · exact ⟨_, filterForTurn_of_loadAll loaded, corresponds.names same topK⟩
    · exact listed_selects corresponds.nodup topK
    · intro other perm
      exact listed_eq_of_perm perm ((perm.map (·.slug)).nodup_iff.mpr corresponds.nodup) topK
    · rintro first second rfl perm
      unfold filterForTurn loadAll
      rw [diskSkills_eq_of_perm perm]

end Both

/-! ### A description with too many digits -/

/-- A directory with one skill. -/
def oneSkill : SkillsDir where
  children := [{ name := text "count", isDir := true, skillMd := some (some "---\nd\n---\n") }]
  distinct := List.nodup_singleton _

def integerDescription (value : Nat) : Fields := [(some (text "description"), .int value)]

def resolvedCount (value : Nat) : ResolvedSkill where
  slug := text "count"
  description := []
  frontmatter := integerDescription value

def loadsInteger (value : Nat) (_ : String) : Loaded := .mapping (integerDescription value)

theorem corresponds_count (value : Nat) :
    Corresponds (loadsInteger value) (some oneSkill) [resolvedCount value] :=
  List.Perm.refl _

theorem descriptionOf_integerDescription {maxStrDigits value : Nat} (positive : 0 < maxStrDigits)
    (large : 10 ^ maxStrDigits ≤ value) :
    descriptionOf maxStrDigits (integerDescription value) = none := by
  have nonzero : value ≠ 0 := fun isZero => by
    rw [isZero] at large
    exact absurd (Nat.pos_of_ne_zero (pow_ne_zero maxStrDigits (by decide))) (not_lt.mpr large)
  have long : ¬ (toString value).length ≤ maxStrDigits := by
    rw [Nat.toString_eq_ofList_toDigits, String.length_ofList,
      Nat.length_toDigits_le_iff (by decide) positive]
    exact not_lt.mpr large
  have isTruthy : (YamlValue.int value).truthy = true :=
    bne_iff_ne.mpr (Int.natCast_ne_zero.mpr nonzero)
  have found : get (integerDescription value) "description" = some (.int value) := rfl
  unfold descriptionOf
  rw [found]
  dsimp only
  rw [if_pos isTruthy, YamlValue.toStr, Int.natAbs_natCast, if_neg long]
  rfl

/-- A directory whose description has too many digits is not read. -/
theorem loadAll_integerDescription {maxStrDigits value : Nat} (positive : 0 < maxStrDigits)
    (large : 10 ^ maxStrDigits ≤ value) :
    loadAll maxStrDigits (loadsInteger value) (some oneSkill) = .error .tooManyDigits := by
  have notShown : ¬ (descriptionOf maxStrDigits (integerDescription value)).isSome := by
    rw [descriptionOf_integerDescription positive large]
    exact Bool.false_ne_true
  have failed : parseSkill maxStrDigits (loadsInteger value)
      { name := text "count", content := some "---\nd\n---\n" } = .error .tooManyDigits :=
    parseSkill_of_not_shown rfl notShown
  show List.mapM (parseSkill maxStrDigits (loadsInteger value))
    [{ name := text "count", content := some "---\nd\n---\n" }] = _
  rw [List.mapM_cons, failed]
  rfl

/-- An integer of 4001 hexadecimal digits has more than the 4300 digits that `str` gives. -/
theorem manyDigits : 10 ^ 4300 ≤ 16 ^ 4000 := calc
  10 ^ 4300 = (10 ^ 43) ^ 100 := pow_mul 10 43 100
  _ ≤ (16 ^ 40) ^ 100 := Nat.pow_le_pow_left (by norm_num) 100
  _ = 16 ^ 4000 := by rw [← pow_mul]

theorem not_agrees_count :
    ¬ Agrees 4300 (loadsInteger (16 ^ 4000)) id (some oneSkill) [resolvedCount (16 ^ 4000)] [] none
      8 := by
  rintro ⟨⟨entries, ran, _⟩, _, _, _⟩
  unfold filterForTurn at ran
  rw [loadAll_integerDescription (by decide) manyDigits] at ran
  cases ran

theorem agrees_iff_count :
    Agrees 4300 (loadsInteger (16 ^ 4000)) id (some oneSkill) [resolvedCount (16 ^ 4000)] [] none
        8 ↔
      ∀ skill ∈ [resolvedCount (16 ^ 4000)], (descriptionOf 4300 skill.frontmatter).isSome :=
  agrees_iff (corresponds_count (16 ^ 4000))

end LiteHorse.Skills.Activation
