/-
This file models the actions on the skills of a local user in the whole file system, where the
skills directory lies at some path. A name is joined to that path, and a path in a skill may be
absolute or go upwards.

Whatever a call changes lies at `skills_root() / name` or below it, and the name is one component
(`dispatch_contained`); but for the skills directory itself, which every call makes if it is not
there.
-/

import LiteHorse.Skills.LocalDispatch

namespace LiteHorse.Skills

open Agent.SkillCloud (isSlug)
open FileTrees Pathlib Python Security Sorting

/-! ### The actions -/

section Located

variable (isPrintable : Char → Bool) (tree : Tree) (directory : List Str) (name : Str)

/-- `skills_root()` makes sure that the directory is there. -/
def skillsRoot (home : List Str) : Except OsError Tree :=
  tree.makeDirectories true (osPath home)

def skillMdAt : List Name := osPath (directory ++ [Str.ofString "SKILL.md"])

def createAt (content : Option Str) : Outcome :=
  if (tree.node (osPath directory)).isSome then
    refuse tree ("skill " ++ name.repr isPrintable ++ " already exists")
  else
    match withFrontmatter content with
    | none =>
      refuse tree ("content must be a complete SKILL.md with YAML frontmatter " ++
        "(--- name: ... description: ... ---)")
    | some content =>
      match checkUntrusted content.shown with
      | .error error => refuse tree ("unsafe skill content: " ++ error)
      | .ok () =>
        match tree.makeDirectories false (osPath directory) with
        | .error raised => ⟨.error (.os raised), tree⟩
        | .ok made =>
          write made (skillMdAt directory) content
            (.path (Str.ofString "skills/" ++ name ++ Str.ofString "/SKILL.md"))

def patchTextAt (old new : Str) (text : String) : Outcome :=
  match countStr text old with
  | 0 => refuse tree "old_string not found"
  | 1 => write tree (skillMdAt directory) (replaceStr text old new) .done
  | many => refuse tree ("old_string matches " ++ toString many ++ " times; make it unique")

def patchAt (oldString newString : Option Str) : Outcome :=
  if (tree.node (skillMdAt directory)).isSome then
    match given oldString, newString with
    | some old, some new =>
      match readText tree (skillMdAt directory) with
      | .error raised => ⟨.error raised, tree⟩
      | .ok text => patchTextAt tree directory old new text
    | _, _ => refuse tree "old_string and new_string required"
  else refuse tree (doesNotExist isPrintable name)

def editAt (content : Option Str) : Outcome :=
  if (tree.node (skillMdAt directory)).isSome then
    match withFrontmatter content with
    | none => refuse tree "content must include YAML frontmatter"
    | some content =>
      match checkUntrusted content.shown with
      | .error error => refuse tree ("unsafe skill content: " ++ error)
      | .ok () => write tree (skillMdAt directory) content .done
  else refuse tree (doesNotExist isPrintable name)

def deleteAt : Outcome :=
  if (tree.node (osPath directory)).isSome then change tree (tree.removeTree (osPath directory))
  else refuse tree (doesNotExist isPrintable name)

/-- `_resolve_inside`. An absolute path starts anew. -/
def resolveInsideAt (filePath : Str) : Except Failure (List Name) :=
  match resolve directory filePath with
  | .error raised => .error (.path raised)
  | .ok target =>
    if directory <+: target then .ok (osPath target)
    else .error (.message "file_path escapes skill directory")

def writeFileAt (filePath content : Option Str) : Outcome :=
  match given filePath, content with
  | some filePath, some content =>
    if (tree.node (osPath directory)).isSome then
      match resolveInsideAt directory filePath with
      | .error error => ⟨.ok (.failed error), tree⟩
      | .ok target =>
        match checkUntrusted content.shown with
        | .error error => refuse tree ("unsafe file content: " ++ error)
        | .ok () =>
          match tree.makeDirectories true target.dropLast with
          | .error raised => ⟨.error (.os raised), tree⟩
          | .ok made =>
            write made target content
              (.path (Str.ofString "skills/" ++ name ++ Str.ofString "/" ++ filePath))
    else refuse tree (doesNotExist isPrintable name)
  | _, _ => refuse tree "file_path and content required"

def removeFileAt (filePath : Option Str) : Outcome :=
  match given filePath with
  | some filePath =>
    if (tree.node (osPath directory)).isSome then
      match resolveInsideAt directory filePath with
      | .error error => ⟨.ok (.failed error), tree⟩
      | .ok target =>
        if (tree.node target).isSome then change tree (tree.unlink target)
        else ⟨.ok .done, tree⟩
    else refuse tree (doesNotExist isPrintable name)
  | none => refuse tree "file_path required"

def listAt (home : List Str) : Outcome :=
  let directories := (tree.children (osPath home)).filter fun name =>
    tree.IsDirectory (osPath home ++ [name])
  ⟨.ok (.skills (sortedBy codes (directories.map fsdecode))), tree⟩

/-- An action on the skill of a name, whose directory has this path. -/
def actAt (call : Call) : Outcome :=
  match call.action with
  | .list => listAt tree directory.dropLast
  | .create => createAt isPrintable tree directory name call.content
  | .patch => patchAt isPrintable tree directory name call.oldString call.newString
  | .edit => editAt isPrintable tree directory name call.content
  | .delete => deleteAt isPrintable tree directory name
  | .writeFile => writeFileAt isPrintable tree directory name call.filePath call.content
  | .removeFile => removeFileAt isPrintable tree directory name call.filePath

/-- `dispatch`, where the skills directory lies at `home`. -/
def dispatchAt (home : List Str) (call : Call) : Outcome :=
  if call.action = .list then
    match skillsRoot tree home with
    | .error raised => ⟨.error (.os raised), tree⟩
    | .ok ensured => listAt ensured home
  else
    match given call.name with
    | none => refuse tree "name is required"
    | some name =>
      if isSlug name.shown then
        match skillsRoot tree home with
        | .error raised => ⟨.error (.os raised), tree⟩
        | .ok ensured =>
          match resolve home name with
          | .error raised => ⟨.error (.path raised), ensured⟩
          | .ok directory => actAt isPrintable ensured directory name call
      else
        refuse tree ("invalid skill name " ++ name.repr isPrintable ++
          "; must be lowercase, alphanumeric + dash/underscore, max 64 chars, " ++
          "start with [a-z0-9]")

end Located

/-! ### The directory of a skill -/

section Directory

variable {name : Str}

/-- The text is one component of a path, and none that stands for another directory or is hidden. -/
structure SingleComponent (name : Str) : Prop where
  nonempty : name ≠ []
  noSlash : .char '/' ∉ name
  notHidden : name.head? ≠ some (.char '.')
  notCurrent : name ≠ Str.ofString "."
  notParent : name ≠ Str.ofString ".."
  isName : ∃ bytes, nameOf name = .ok bytes

theorem toNat_of_slugChar {char : Char} (accepted : slugChar char = true) :
    char.toNat ≠ 0 ∧ char.toNat ≠ 0x2f ∧ char.toNat ≤ 0x7f := by
  unfold slugChar at accepted
  simp only [Bool.or_eq_true, Bool.and_eq_true, decide_eq_true_eq, Char.le_def,
    UInt32.le_iff_toNat_le] at accepted
  rcases accepted with (((⟨low, high⟩ | ⟨low, high⟩) | rfl) | rfl) | rfl
  · have small : char.val.toNat ≤ 122 := high
    have large : 97 ≤ char.val.toNat := low
    show char.val.toNat ≠ 0 ∧ char.val.toNat ≠ 0x2f ∧ char.val.toNat ≤ 0x7f
    omega
  · have small : char.val.toNat ≤ 57 := high
    have large : 48 ≤ char.val.toNat := low
    show char.val.toNat ≠ 0 ∧ char.val.toNat ≠ 0x2f ∧ char.val.toNat ≤ 0x7f
    omega
  all_goals decide

/-- The characters of a slug are single bytes, and none of them is a slash or null. -/
theorem utf8_of_slugChar {char : Char} (accepted : slugChar char = true) :
    char ≠ '/' ∧ (0 : UInt8) ∉ String.utf8EncodeChar char := by
  obtain ⟨notNull, notSlash, small⟩ := toNat_of_slugChar accepted
  constructor
  · rintro rfl
    exact notSlash rfl
  · unfold String.utf8EncodeChar
    dsimp only
    rw [if_pos (show char.val.toNat ≤ 0x7f from small), List.mem_singleton]
    intro isNull
    have same := congrArg UInt8.toNat isNull
    rw [UInt8.toNat_ofNat', Nat.mod_eq_of_lt] at same
    · exact notNull same.symm
    · show char.toNat < 256
      omega

theorem singleComponent_of_isSlug (slug : isSlug name.shown = true) : SingleComponent name := by
  have accepted : ∀ char, .char char ∈ name → slugChar char = true := by
    intro char member
    rw [eq_ofString_of_isSlug slug] at member
    obtain ⟨other, isMember, same⟩ := List.mem_map.mp member
    cases same
    exact slugChar_of_mem slug isMember
  have noDot : .char '.' ∉ name := fun member => Bool.false_ne_true (accepted '.' member)
  constructor
  · rintro rfl
    cases slug
  · exact fun member => (utf8_of_slugChar (accepted '/' member)).1 rfl
  · exact fun isFirst => noDot (List.mem_of_mem_head? isFirst)
  · rintro rfl
    exact noDot List.mem_cons_self
  · rintro rfl
    exact noDot List.mem_cons_self
  · have isEncoded := fsencode_ofString name.shown
    rw [← eq_ofString_of_isSlug slug] at isEncoded
    refine ⟨name.shown.toList.flatMap String.utf8EncodeChar, ?_⟩
    unfold nameOf
    rw [isEncoded]
    refine if_neg fun isNull => ?_
    obtain ⟨char, member, inBytes⟩ := List.mem_flatMap.mp isNull
    exact (utf8_of_slugChar (slugChar_of_mem slug member)).2 inBytes

theorem resolve_of_singleComponent (home : List Str) (single : SingleComponent name) :
    resolve home name = .ok (home ++ [name]) := by
  have notAbsolute : name.head? ≠ some (.char '/') :=
    fun isFirst => single.noSlash (List.mem_of_mem_head? isFirst)
  obtain ⟨bytes, isName⟩ := single.isName
  unfold resolve
  have onePart : name.splitOn (.char '/') = [name] := by
    refine List.splitOnP_eq_singleton fun char member => beq_eq_false_iff_ne.mpr ?_
    rintro rfl
    exact single.noSlash member
  rw [if_neg notAbsolute, onePart]
  unfold follow
  rw [if_neg (not_or.mpr ⟨single.nonempty, single.notCurrent⟩), if_neg single.notParent, isName]
  rfl

end Directory

/-! ### The skills directory as a whole file system -/

section Whole

variable {isPrintable : Char → Bool} {tree : Tree} {name : Str}

theorem actAt_singleton {call : Call} (notList : call.action ≠ .list) :
    actAt isPrintable tree [name] name call = act isPrintable tree [] name call := by
  unfold actAt act
  cases isAction : call.action with
  | list => exact absurd isAction notList
  | create => rfl
  | patch => rfl
  | edit => rfl
  | delete => rfl
  | writeFile => rfl
  | removeFile => rfl

/-- Where nothing is outside of the skills directory, a call does what it does in its tree. -/
theorem dispatchAt_nil (isPrintable : Char → Bool) (tree : Tree) (call : Call) :
    dispatchAt isPrintable tree [] call = dispatch isPrintable tree [] call := by
  have isEnsured : skillsRoot tree [] = .ok tree := rfl
  unfold dispatchAt dispatch
  rw [isEnsured]
  by_cases isList : call.action = .list
  · rw [if_pos isList, if_pos isList]
    rfl
  · rw [if_neg isList, if_neg isList]
    cases given call.name with
    | none => rfl
    | some name =>
      dsimp only
      split
      next slug =>
        rw [resolve_of_singleComponent [] (singleComponent_of_isSlug slug)]
        exact actAt_singleton isList
      next => rfl

end Whole

/-! ### What an action leaves alone -/

section Actions

variable {isPrintable : Char → Bool} {tree made : Tree} {directory : List Str} {name : Str}
  {path : List Name}

theorem osPath_append (first second : List Str) :
    osPath (first ++ second) = osPath first ++ osPath second := List.map_append

theorem sameOutside_write {text : Str} {answer : Answer} :
    tree.SameOutside (write tree path text answer).tree path := by
  show tree.SameOutside (writeText tree path text).2 path
  unfold writeText
  split
  next => exact FileTree.SameOutside.refl tree path
  next isWritten => exact FileTree.sameOutside_writeFile isWritten

theorem sameOutside_change {changed : Except OsError Tree}
    (same : ∀ next, changed = .ok next → tree.SameOutside next path) :
    tree.SameOutside (change tree changed).tree path := by
  cases changed with
  | error raised => exact FileTree.SameOutside.refl tree path
  | ok next => exact same next rfl

/-- The text of a skill is written below its directory. -/
theorem sameOutside_write_skillMd {text : Str} {answer : Answer} :
    tree.SameOutside (write tree (skillMdAt directory) text answer).tree (osPath directory) := by
  refine sameOutside_write.above ?_
  unfold skillMdAt
  rw [osPath_append]
  exact List.prefix_append _ _

theorem sameOutside_createAt (inside : tree.IsDirectory (osPath directory).dropLast)
    (content : Option Str) :
    tree.SameOutside (createAt isPrintable tree directory name content).tree
      (osPath directory) := by
  unfold createAt
  split
  next => exact FileTree.SameOutside.refl tree _
  next =>
    split
    next => exact FileTree.SameOutside.refl tree _
    next =>
      split
      next => exact FileTree.SameOutside.refl tree _
      next =>
        split
        next => exact FileTree.SameOutside.refl tree _
        next isMade =>
          exact (FileTree.sameOutside_makeDirectories isMade List.prefix_rfl inside).trans
            sameOutside_write_skillMd

theorem sameOutside_patchAt (oldString newString : Option Str) :
    tree.SameOutside (patchAt isPrintable tree directory name oldString newString).tree
      (osPath directory) := by
  unfold patchAt
  split
  next =>
    split
    next =>
      split
      next => exact FileTree.SameOutside.refl tree _
      next =>
        unfold patchTextAt
        split
        next => exact FileTree.SameOutside.refl tree _
        next => exact sameOutside_write_skillMd
        next => exact FileTree.SameOutside.refl tree _
    next => exact FileTree.SameOutside.refl tree _
  next => exact FileTree.SameOutside.refl tree _

theorem sameOutside_editAt (content : Option Str) :
    tree.SameOutside (editAt isPrintable tree directory name content).tree (osPath directory) := by
  unfold editAt
  split
  next =>
    split
    next => exact FileTree.SameOutside.refl tree _
    next =>
      split
      next => exact FileTree.SameOutside.refl tree _
      next => exact sameOutside_write_skillMd
  next => exact FileTree.SameOutside.refl tree _

theorem sameOutside_deleteAt :
    tree.SameOutside (deleteAt isPrintable tree directory name).tree (osPath directory) := by
  unfold deleteAt
  split
  next => exact sameOutside_change fun next removed => FileTree.sameOutside_removeTree removed
  next => exact FileTree.SameOutside.refl tree _

/-- A path that is let through lies at the directory of the skill or below it. -/
theorem prefix_of_resolveInsideAt {filePath : Str}
    (resolved : resolveInsideAt directory filePath = .ok path) : osPath directory <+: path := by
  unfold resolveInsideAt at resolved
  split at resolved
  · cases resolved
  · split at resolved
    next inside =>
      cases resolved
      exact inside.map _
    next => cases resolved

/-- The directories above a path in the skill are in the skill, or there already. -/
theorem sameOutside_makeAbove (inside : tree.IsDirectory (osPath directory).dropLast)
    (below : osPath directory <+: path)
    (isMade : tree.makeDirectories true path.dropLast = .ok made) :
    tree.SameOutside made (osPath directory) := by
  by_cases same : osPath directory = path
  · rw [← same, FileTree.makeDirectories_of_isDirectory inside] at isMade
    cases isMade
    exact FileTree.SameOutside.refl tree _
  · exact FileTree.sameOutside_makeDirectories isMade (prefix_dropLast below same) inside

theorem sameOutside_writeFileAt (inside : tree.IsDirectory (osPath directory).dropLast)
    (filePath content : Option Str) :
    tree.SameOutside (writeFileAt isPrintable tree directory name filePath content).tree
      (osPath directory) := by
  unfold writeFileAt
  split
  next =>
    split
    next =>
      split
      next => exact FileTree.SameOutside.refl tree _
      next target resolved =>
        have below := prefix_of_resolveInsideAt resolved
        split
        next => exact FileTree.SameOutside.refl tree _
        next =>
          split
          next => exact FileTree.SameOutside.refl tree _
          next isMade =>
            exact (sameOutside_makeAbove inside below isMade).trans (sameOutside_write.above below)
    next => exact FileTree.SameOutside.refl tree _
  next => exact FileTree.SameOutside.refl tree _

theorem sameOutside_removeFileAt (filePath : Option Str) :
    tree.SameOutside (removeFileAt isPrintable tree directory name filePath).tree
      (osPath directory) := by
  unfold removeFileAt
  split
  next =>
    split
    next =>
      split
      next => exact FileTree.SameOutside.refl tree _
      next target resolved =>
        have below := prefix_of_resolveInsideAt resolved
        split
        next =>
          refine sameOutside_change fun next removed => ?_
          exact (FileTree.sameOutside_unlink removed).above below
        next => exact FileTree.SameOutside.refl tree _
    next => exact FileTree.SameOutside.refl tree _
  next => exact FileTree.SameOutside.refl tree _

/-- An action on a skill in a directory that is there changes nothing outside of the skill. -/
theorem sameOutside_actAt (inside : tree.IsDirectory (osPath directory).dropLast) (call : Call) :
    tree.SameOutside (actAt isPrintable tree directory name call).tree (osPath directory) := by
  unfold actAt
  cases call.action with
  | list => exact FileTree.SameOutside.refl tree _
  | create => exact sameOutside_createAt inside _
  | patch => exact sameOutside_patchAt _ _
  | edit => exact sameOutside_editAt _
  | delete => exact sameOutside_deleteAt
  | writeFile => exact sameOutside_writeFileAt inside _ _
  | removeFile => exact sameOutside_removeFileAt _

end Actions

/-! ### The calls -/

section Calls

variable (isPrintable : Char → Bool) (tree : Tree) (home : List Str) (call : Call)

/-- The path lies at `skills_root() / name` or below it, where the name is one component. -/
def InSkill (path : List Name) : Prop :=
  ∃ name, call.name = some name ∧ SingleComponent name ∧ osPath (home ++ [name]) <+: path

/-- What a call leaves as it was. -/
structure Contained (next : Tree) : Prop where
  /-- What is changed is in the skill, or it is a directory on the way to the skills that was
  missing. -/
  changed : ∀ path, InSkill home call path ∨ tree.MadeOnWay next (osPath home) path
  /-- Where the skills directory is there, what is changed is in the skill. -/
  unchanged : tree.IsDirectory (osPath home) → ∀ path,
    InSkill home call path ∨ next.node path = tree.node path

variable {tree home call} {ensured next : Tree}

theorem contained_of_skillsRoot (isEnsured : skillsRoot tree home = .ok ensured)
    (same : ∀ path, InSkill home call path ∨ next.node path = ensured.node path) :
    Contained tree home call next := by
  constructor
  · intro path
    refine (same path).imp_right fun sameNode => ?_
    unfold FileTree.MadeOnWay
    rw [sameNode]
    exact FileTree.madeOnWay_of_makeDirectories isEnsured path
  · intro isThere path
    unfold skillsRoot at isEnsured
    rw [FileTree.makeDirectories_of_isDirectory isThere] at isEnsured
    cases isEnsured
    exact same path

theorem contained_of_same : Contained tree home call tree :=
  ⟨fun _ => Or.inr (Or.inl rfl), fun _ _ => Or.inr rfl⟩

theorem name_of_given {name : Str} (isName : given call.name = some name) :
    call.name = some name := (Option.filter_eq_some_iff.mp isName).1

/-- Whatever the name and the path, a call changes nothing outside of its skill. -/
theorem dispatch_contained (isPrintable : Char → Bool) (tree : Tree) (home : List Str)
    (call : Call) :
    Contained tree home call (dispatchAt isPrintable tree home call).tree := by
  unfold dispatchAt
  split
  next =>
    split
    next => exact contained_of_same
    next isEnsured => exact contained_of_skillsRoot isEnsured fun _ => Or.inr rfl
  next =>
    split
    next => exact contained_of_same
    next name isName =>
      split
      next slug =>
        have single := singleComponent_of_isSlug slug
        rw [resolve_of_singleComponent home single]
        split
        next => exact contained_of_same
        next ensured isEnsured =>
          have inside : ensured.IsDirectory (osPath (home ++ [name])).dropLast := by
            rw [osPath_append]
            exact List.dropLast_concat ▸ FileTree.isDirectory_of_makeDirectories isEnsured
          refine contained_of_skillsRoot isEnsured fun path => ?_
          by_cases within : osPath (home ++ [name]) <+: path
          · exact Or.inl ⟨name, name_of_given isName, single, within⟩
          · exact Or.inr (sameOutside_actAt inside call path within)
      next => exact contained_of_same

end Calls

end LiteHorse.Skills
