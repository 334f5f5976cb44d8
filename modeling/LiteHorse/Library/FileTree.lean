/-
This file is about a tree of files and directories. A path is the list of the names on the way down
from the root, which is always there and is a directory. That whatever is in the tree lies in a
directory is a field of the tree.

An operation fails as the one of an operating system does, and then it changes nothing. What it
does to the files, if it succeeds, is one lemma for each operation.
-/

import LiteHorse.Library.OrderedDict
import Mathlib.Data.List.Infix

namespace LiteHorse.FileTrees

open OrderedDicts

inductive Node (Content : Type*) where
  | file (content : Content)
  | directory

/-- The content, if it is a file that is there. -/
def contentOf {Content : Type*} : Option (Node Content) → Option Content
  | some (.file content) => some content
  | _ => none

inductive OsError where
  | fileNotFound
  | fileExists
  | notADirectory
  | isADirectory
deriving DecidableEq

variable {Name Content : Type*} [DecidableEq Name]

/-- What is at a path, where the nodes are those below the root. -/
def nodeAt (nodes : OrderedDict (List Name) (Node Content)) (path : List Name) :
    Option (Node Content) :=
  if path = [] then some .directory else nodes.get path

/-- A prefix that is not the whole ends before the last. -/
theorem prefix_dropLast {Item : Type*} {front whole : List Item} (isPrefix : front <+: whole)
    (notSame : front ≠ whole) : front <+: whole.dropLast := by
  obtain ⟨rest, rfl⟩ := isPrefix
  have someRest : rest ≠ [] := fun isEmpty => notSame (isEmpty ▸ (List.append_nil front).symm)
  rw [List.dropLast_append_of_ne_nil someRest]
  exact List.prefix_append front _

theorem nodeAt_setLast {nodes : OrderedDict (List Name) (Node Content)} {path : List Name}
    (notRoot : path ≠ []) (node : Node Content) (other : List Name) :
    nodeAt (nodes.setLast path node) other =
      if other = path then some node else nodeAt nodes other := by
  unfold nodeAt
  rw [OrderedDict.get_setLast]
  by_cases isRoot : other = []
  · rw [if_pos isRoot, if_pos isRoot, if_neg fun same => notRoot (same.symm.trans isRoot)]
  · rw [if_neg isRoot, if_neg isRoot]

theorem nodeAt_keep (nodes : OrderedDict (List Name) (Node Content)) (condition : List Name → Bool)
    (other : List Name) :
    nodeAt (nodes.keep condition) other =
      if other = [] ∨ condition other = true then nodeAt nodes other else none := by
  unfold nodeAt
  rw [OrderedDict.get_keep]
  by_cases isRoot : other = []
  · rw [if_pos isRoot, if_pos isRoot, if_pos (Or.inl isRoot)]
  · rw [if_neg isRoot, if_neg isRoot]
    exact if_congr (or_iff_right isRoot).symm rfl rfl

structure FileTree (Name Content : Type*) [DecidableEq Name] where
  nodes : OrderedDict (List Name) (Node Content)
  inDirectory : ∀ path, (nodeAt nodes path).isSome →
    nodeAt nodes path.dropLast = some .directory

namespace FileTree

def empty : FileTree Name Content where
  nodes := .empty
  inDirectory := by
    intro path isThere
    by_cases isRoot : path = []
    · subst isRoot
      rfl
    · unfold nodeAt at isThere
      rw [if_neg isRoot] at isThere
      cases isThere

variable (tree : FileTree Name Content)

/-! ### What is in a tree -/

def node (path : List Name) : Option (Node Content) := nodeAt tree.nodes path

/-- The content of the file at a path. -/
def file (path : List Name) : Option Content := contentOf (tree.node path)

def IsDirectory (path : List Name) : Prop := tree.node path = some .directory

instance decidableIsDirectory (path : List Name) : Decidable (tree.IsDirectory path) :=
  match found : tree.node path with
  | some .directory => isTrue found
  | some (.file _) => isFalse fun isDirectory => by cases found.symm.trans isDirectory
  | none => isFalse fun isDirectory => by cases found.symm.trans isDirectory

/-- The names of what is in a directory. -/
def children (path : List Name) : List Name :=
  tree.nodes.items.filterMap fun item =>
    if item.1.dropLast = path then item.1.getLast? else none

/-- Every file has a content of this kind. -/
def AllFiles (property : Content → Prop) : Prop :=
  ∀ path content, tree.file path = some content → property content

/-- The error of a path that is not there. -/
def missing (path : List Name) : OsError :=
  if path.dropLast.inits.any fun above => (tree.file above).isSome then .notADirectory
  else .fileNotFound

theorem isDirectory_root : tree.IsDirectory [] := rfl

/-! ### Changing a tree -/

/-- Put a node into a directory, in the place of a file or of nothing. -/
def put (path : List Name) (node : Node Content) (inside : tree.IsDirectory path.dropLast)
    (free : ¬ tree.IsDirectory path) : FileTree Name Content where
  nodes := tree.nodes.setLast path node
  inDirectory := by
    have notRoot : path ≠ [] := fun isRoot => free (isRoot ▸ tree.isDirectory_root)
    have notInside : path.dropLast ≠ path := fun same => free (same ▸ inside)
    intro other isThere
    rw [nodeAt_setLast notRoot] at isThere ⊢
    by_cases same : other = path
    · rw [same, if_neg notInside]
      exact inside
    · rw [if_neg same] at isThere
      have isDirectory := tree.inDirectory other isThere
      rw [if_neg fun above : other.dropLast = path => free (above ▸ isDirectory)]
      exact isDirectory

/-- Take out a node, and what is below it. -/
def cut (path : List Name) : FileTree Name Content where
  nodes := tree.nodes.keep fun other => decide (¬ path <+: other)
  inDirectory := by
    intro other isThere
    rw [nodeAt_keep] at isThere ⊢
    by_cases isKept : other = [] ∨ decide (¬ path <+: other) = true
    · rw [if_pos isKept] at isThere
      refine (if_pos ?_).trans (tree.inDirectory other isThere)
      rcases isKept with isRoot | outside
      · left
        rw [isRoot, List.dropLast_nil]
      · refine Or.inr (decide_eq_true fun inside => of_decide_eq_true outside ?_)
        exact inside.trans other.dropLast_prefix
    · rw [if_neg isKept] at isThere
      cases isThere

def readFile (path : List Name) : Except OsError Content :=
  match tree.node path with
  | some (.file content) => .ok content
  | some .directory => .error .isADirectory
  | none => .error (tree.missing path)

/-- Write a file, in the place of the one that is there. -/
def writeFile (path : List Name) (content : Content) : Except OsError (FileTree Name Content) :=
  if blocked : tree.IsDirectory path then .error .isADirectory
  else if inside : tree.IsDirectory path.dropLast then
    .ok (tree.put path (.file content) inside blocked)
  else .error (tree.missing path)

/-- Open a file to read and write it, a new one if there is none, and read it. -/
def openFile (path : List Name) (new : Content) :
    Except OsError (Content × FileTree Name Content) :=
  match tree.node path with
  | some (.file content) => .ok (content, tree)
  | some .directory => .error .isADirectory
  | none => (tree.writeFile path new).map fun opened => (new, opened)

def makeDirectory (path : List Name) : Except OsError (FileTree Name Content) :=
  if free : tree.node path = none then
    if inside : tree.IsDirectory path.dropLast then
      .ok (tree.put path .directory inside fun isDirectory => by cases free.symm.trans isDirectory)
    else .error (tree.missing path)
  else .error .fileExists

def unlink (path : List Name) : Except OsError (FileTree Name Content) :=
  match tree.node path with
  | some (.file _) => .ok (tree.cut path)
  | some .directory => .error .isADirectory
  | none => .error (tree.missing path)

/-- Remove a directory and what is in it. The root stays. -/
def removeTree (path : List Name) : Except OsError (FileTree Name Content) :=
  match tree.node path with
  | some .directory => .ok (tree.cut path)
  | some (.file _) => .error .notADirectory
  | none => .error (tree.missing path)

/-- Make a directory, and those above it that are missing. The path is read upwards, and a
directory that is there already is an error for the path itself only if it has to be new. -/
def makeUpwards (existOk : Bool) : List Name → Except OsError (FileTree Name Content)
  | [] => if existOk then .ok tree else .error .fileExists
  | name :: above =>
    match tree.makeDirectory (name :: above).reverse with
    | .ok made => .ok made
    | .error .fileNotFound =>
      (makeUpwards true above).bind fun made => made.makeDirectory (name :: above).reverse
    | .error raised =>
      if existOk = true ∧ tree.IsDirectory (name :: above).reverse then .ok tree
      else .error raised

def makeDirectories (existOk : Bool) (path : List Name) :
    Except OsError (FileTree Name Content) :=
  tree.makeUpwards existOk path.reverse

/-! ### What an operation does to the files -/

variable {tree} {next : FileTree Name Content} {path other : List Name} {content : Content}

theorem file_eq_some_iff : tree.file path = some content ↔
    tree.node path = some (.file content) := by
  unfold file contentOf
  split
  next found isFound => rw [isFound, Option.some.injEq, Option.some.injEq, Node.file.injEq]
  next notFile =>
    refine iff_of_false (fun same => ?_) (notFile content)
    cases same

theorem readFile_eq_ok_iff : tree.readFile path = .ok content ↔ tree.file path = some content := by
  rw [file_eq_some_iff]
  unfold readFile
  split
  next found isFound => rw [isFound, Except.ok.injEq, Option.some.injEq, Node.file.injEq]
  next isDirectory =>
    refine iff_of_false (fun same => ?_) (fun same => ?_)
    · cases same
    · cases isDirectory.symm.trans same
  next isMissing =>
    refine iff_of_false (fun same => ?_) (fun same => ?_)
    · cases same
    · cases isMissing.symm.trans same

theorem file_of_isDirectory (isDirectory : tree.IsDirectory path) : tree.file path = none :=
  congrArg contentOf isDirectory

theorem node_put {node : Node Content} (inside : tree.IsDirectory path.dropLast)
    (free : ¬ tree.IsDirectory path) (other : List Name) :
    (tree.put path node inside free).node other =
      if other = path then some node else tree.node other := by
  refine nodeAt_setLast (fun isRoot => free ?_) node other
  rw [isRoot]
  exact tree.isDirectory_root

theorem file_put {node : Node Content} (inside : tree.IsDirectory path.dropLast)
    (free : ¬ tree.IsDirectory path) (other : List Name) :
    (tree.put path node inside free).file other =
      if other = path then contentOf (some node) else tree.file other := by
  unfold file
  rw [node_put, apply_ite contentOf]

theorem node_cut (path other : List Name) :
    (tree.cut path).node other =
      if other ≠ [] ∧ path <+: other then none else tree.node other := by
  refine (nodeAt_keep tree.nodes _ other).trans ?_
  simp only [decide_eq_true_eq]
  by_cases isKept : other = [] ∨ ¬ path <+: other
  · rw [if_pos isKept, if_neg]
    · rfl
    · rintro ⟨notRoot, inside⟩
      exact isKept.elim notRoot fun outside => outside inside
  · rw [if_neg isKept, if_pos]
    rwa [not_or, not_not] at isKept

theorem file_cut (path other : List Name) :
    (tree.cut path).file other = if path <+: other then none else tree.file other := by
  unfold file
  rw [node_cut]
  by_cases inside : path <+: other
  · rw [if_pos inside]
    split
    next => rfl
    next isKept =>
      have isRoot : other = [] := by
        by_contra notRoot
        exact isKept ⟨notRoot, inside⟩
      rw [isRoot]
      exact file_of_isDirectory tree.isDirectory_root
  · rw [if_neg inside, if_neg fun cuts => inside cuts.2]

theorem writeFile_eq_put (inside : tree.IsDirectory path.dropLast) (free : ¬ tree.IsDirectory path)
    (content : Content) :
    tree.writeFile path content = .ok (tree.put path (.file content) inside free) := by
  unfold writeFile
  rw [dif_neg free, dif_pos inside]

theorem eq_put_of_writeFile (written : tree.writeFile path content = .ok next) :
    ∃ inside free, next = tree.put path (.file content) inside free := by
  unfold writeFile at written
  split at written
  · cases written
  · split at written
    · cases written
      exact ⟨_, _, rfl⟩
    · cases written

theorem writeFile_eq_ok_iff : (∃ next, tree.writeFile path content = .ok next) ↔
    tree.IsDirectory path.dropLast ∧ ¬ tree.IsDirectory path := by
  constructor
  · rintro ⟨next, written⟩
    obtain ⟨inside, free, _⟩ := eq_put_of_writeFile written
    exact ⟨inside, free⟩
  · rintro ⟨inside, free⟩
    exact ⟨_, writeFile_eq_put inside free content⟩

theorem isDirectory_of_file (isFile : tree.file path = some content) :
    tree.IsDirectory path.dropLast := by
  refine tree.inDirectory path ?_
  show (tree.node path).isSome = true
  rw [file_eq_some_iff.mp isFile]
  rfl

/-- A file that is there can be written. -/
theorem exists_writeFile (isFile : tree.file path = some content) (replacing : Content) :
    ∃ next, tree.writeFile path replacing = .ok next := by
  refine writeFile_eq_ok_iff.mpr ⟨isDirectory_of_file isFile, fun isDirectory => ?_⟩
  cases (file_eq_some_iff.mp isFile).symm.trans isDirectory

theorem file_of_writeFile (written : tree.writeFile path content = .ok next) (other : List Name) :
    next.file other = if other = path then some content else tree.file other := by
  obtain ⟨inside, free, rfl⟩ := eq_put_of_writeFile written
  exact file_put inside free other

theorem makeDirectory_eq_put (made : tree.makeDirectory path = .ok next) :
    tree.node path = none ∧ ∀ other,
      next.node other = if other = path then some .directory else tree.node other := by
  unfold makeDirectory at made
  split at made
  next free =>
    split at made
    · cases made
      exact ⟨free, node_put _ _⟩
    · cases made
  next => cases made

/-- What is at a path has stayed as it was, or is a directory that was missing on the way to
another. -/
def MadeOnWay (tree next : FileTree Name Content) (path other : List Name) : Prop :=
  next.node other = tree.node other ∨
    tree.node other = none ∧ next.node other = some .directory ∧ other <+: path

theorem MadeOnWay.isDirectory (made : tree.MadeOnWay next path other)
    (isDirectory : tree.IsDirectory other) : next.IsDirectory other := by
  rcases made with same | ⟨missing, _⟩
  · exact same.trans isDirectory
  · cases missing.symm.trans isDirectory

theorem madeOnWay_of_makeDirectory (made : tree.makeDirectory path = .ok next)
    (other : List Name) : tree.MadeOnWay next path other := by
  obtain ⟨free, nodes⟩ := makeDirectory_eq_put made
  by_cases same : other = path
  · rw [same]
    exact Or.inr ⟨free, (nodes path).trans (if_pos rfl), List.prefix_rfl⟩
  · exact Or.inl ((nodes other).trans (if_neg same))

theorem madeOnWay_of_makeUpwards {existOk : Bool} {upwards : List Name}
    (made : tree.makeUpwards existOk upwards = .ok next) (other : List Name) :
    tree.MadeOnWay next upwards.reverse other := by
  induction upwards generalizing existOk next with
  | nil =>
    unfold makeUpwards at made
    split at made
    · cases made
      exact Or.inl rfl
    · cases made
  | cons name above inductionHypothesis =>
    unfold makeUpwards at made
    split at made
    next isMade =>
      cases made
      exact madeOnWay_of_makeDirectory isMade other
    next =>
      cases between : tree.makeUpwards true above with
      | error raised =>
        rw [between] at made
        cases made
      | ok reached =>
        rw [between] at made
        have wayUp : above.reverse <+: (name :: above).reverse := by
          rw [List.reverse_cons]
          exact List.prefix_append _ _
        rcases inductionHypothesis between with same | ⟨missing, isDirectory, onWay⟩
        · rcases madeOnWay_of_makeDirectory made other with still | ⟨missing, isMade, onWay⟩
          · exact Or.inl (still.trans same)
          · exact Or.inr ⟨same ▸ missing, isMade, onWay⟩
        · exact Or.inr ⟨missing, (madeOnWay_of_makeDirectory made other).isDirectory isDirectory,
            onWay.trans wayUp⟩
    next =>
      split at made
      · cases made
        exact Or.inl rfl
      · cases made

theorem madeOnWay_of_makeDirectories {existOk : Bool}
    (made : tree.makeDirectories existOk path = .ok next) (other : List Name) :
    tree.MadeOnWay next path other := by
  have onWay := madeOnWay_of_makeUpwards made other
  rwa [List.reverse_reverse] at onWay

/-- Directories that are made leave the files as they are. -/
theorem file_of_makeDirectories {existOk : Bool}
    (made : tree.makeDirectories existOk path = .ok next) : next.file = tree.file := by
  funext other
  unfold file
  rcases madeOnWay_of_makeDirectories made other with same | ⟨missing, isMade, _⟩
  · rw [same]
  · rw [missing, isMade]
    rfl

/-- A directory that is there need not be made. -/
theorem makeDirectories_of_isDirectory (isDirectory : tree.IsDirectory path) :
    tree.makeDirectories true path = .ok tree := by
  unfold makeDirectories
  cases upwards : path.reverse with
  | nil => rfl
  | cons name above =>
    have isPath : (name :: above).reverse = path := by
      rw [← upwards, List.reverse_reverse]
    have isThere : tree.makeDirectory path = .error .fileExists := by
      unfold makeDirectory
      refine dif_neg fun free => ?_
      cases isDirectory.symm.trans free
    unfold makeUpwards
    rw [isPath, isThere]
    exact if_pos ⟨rfl, isDirectory⟩

theorem openFile_of_file (isFile : tree.file path = some content) (new : Content) :
    tree.openFile path new = .ok (content, tree) := by
  unfold openFile
  rw [file_eq_some_iff.mp isFile]

/-- The file that is opened is there, or it is a new one. -/
theorem openFile_cases {found new : Content} (opened : tree.openFile path new = .ok (found, next)) :
    (tree.file path = some found ∧ next = tree) ∨
      (tree.file path = none ∧ found = new ∧ tree.writeFile path new = .ok next) := by
  unfold openFile at opened
  split at opened
  next isFile =>
    cases opened
    exact Or.inl ⟨file_eq_some_iff.mpr isFile, rfl⟩
  next => cases opened
  next isMissing =>
    cases isWritten : tree.writeFile path new with
    | error raised =>
      rw [isWritten] at opened
      cases opened
    | ok made =>
      rw [isWritten] at opened
      cases opened
      exact Or.inr ⟨congrArg contentOf isMissing, rfl, rfl⟩

theorem exists_unlink (isFile : tree.file path = some content) :
    ∃ next, tree.unlink path = .ok next := by
  unfold unlink
  rw [file_eq_some_iff.mp isFile]
  exact ⟨_, rfl⟩

theorem eq_cut_of_unlink (removed : tree.unlink path = .ok next) : next = tree.cut path := by
  unfold unlink at removed
  split at removed
  · exact (Except.ok.inj removed).symm
  · cases removed
  · cases removed

theorem eq_cut_of_removeTree (removed : tree.removeTree path = .ok next) :
    next = tree.cut path := by
  unfold removeTree at removed
  split at removed
  · exact (Except.ok.inj removed).symm
  · cases removed
  · cases removed

theorem file_of_unlink (removed : tree.unlink path = .ok next) (other : List Name) :
    next.file other = if path <+: other then none else tree.file other := by
  rw [eq_cut_of_unlink removed]
  exact file_cut path other

theorem file_of_removeTree (removed : tree.removeTree path = .ok next) (other : List Name) :
    next.file other = if path <+: other then none else tree.file other := by
  rw [eq_cut_of_removeTree removed]
  exact file_cut path other

/-! ### What an operation leaves alone -/

/-- Nothing has changed but at the path and below it. -/
def SameOutside (tree next : FileTree Name Content) (path : List Name) : Prop :=
  ∀ other, ¬ path <+: other → next.node other = tree.node other

theorem SameOutside.refl (tree : FileTree Name Content) (path : List Name) :
    tree.SameOutside tree path := fun _ _ => rfl

theorem SameOutside.trans {between : FileTree Name Content} (first : tree.SameOutside between path)
    (second : between.SameOutside next path) : tree.SameOutside next path :=
  fun other outside => (second other outside).trans (first other outside)

theorem SameOutside.above {below : List Name} (same : tree.SameOutside next below)
    (inside : path <+: below) : tree.SameOutside next path :=
  fun other outside => same other fun within => outside (inside.trans within)

theorem sameOutside_put {node : Node Content} (inside : tree.IsDirectory path.dropLast)
    (free : ¬ tree.IsDirectory path) : tree.SameOutside (tree.put path node inside free) path := by
  intro other outside
  rw [node_put]
  exact if_neg fun same : other = path => outside (same ▸ List.prefix_rfl)

theorem sameOutside_cut (path : List Name) : tree.SameOutside (tree.cut path) path := by
  intro other outside
  rw [node_cut]
  exact if_neg fun cuts => outside cuts.2

theorem sameOutside_writeFile (written : tree.writeFile path content = .ok next) :
    tree.SameOutside next path := by
  obtain ⟨inside, free, rfl⟩ := eq_put_of_writeFile written
  exact sameOutside_put inside free

theorem sameOutside_unlink (removed : tree.unlink path = .ok next) :
    tree.SameOutside next path := by
  rw [eq_cut_of_unlink removed]
  exact sameOutside_cut path

theorem sameOutside_removeTree (removed : tree.removeTree path = .ok next) :
    tree.SameOutside next path := by
  rw [eq_cut_of_removeTree removed]
  exact sameOutside_cut path

/-- What is above something that is there is a directory. -/
theorem isDirectory_of_prefix (isThere : (tree.node path).isSome)
    (above : other <+: path.dropLast) : tree.IsDirectory other := by
  induction path using List.reverseRecOn with
  | nil =>
    rw [List.prefix_nil.mp above]
    exact tree.isDirectory_root
  | append_singleton front last inductionHypothesis =>
    have isDirectory : tree.IsDirectory (front ++ [last]).dropLast := tree.inDirectory _ isThere
    rw [List.dropLast_concat] at isDirectory above
    by_cases same : other = front
    · rw [same]
      exact isDirectory
    · have frontThere : (tree.node front).isSome := Option.isSome_of_eq_some isDirectory
      exact inductionHypothesis frontThere (prefix_dropLast above same)

/-- The directory is there afterwards. -/
theorem isDirectory_of_makeDirectories {existOk : Bool}
    (made : tree.makeDirectories existOk path = .ok next) : next.IsDirectory path := by
  unfold makeDirectories at made
  cases upwards : path.reverse with
  | nil =>
    rw [List.reverse_eq_nil_iff.mp upwards]
    exact next.isDirectory_root
  | cons name above =>
    have isPath : (name :: above).reverse = path := by
      rw [← upwards, List.reverse_reverse]
    rw [upwards] at made
    unfold makeUpwards at made
    rw [isPath] at made
    split at made
    next isMade =>
      cases made
      exact ((makeDirectory_eq_put isMade).2 path).trans (if_pos rfl)
    next =>
      cases between : tree.makeUpwards true above with
      | error raised =>
        rw [between] at made
        cases made
      | ok reached =>
        rw [between] at made
        exact ((makeDirectory_eq_put made).2 path).trans (if_pos rfl)
    next =>
      split at made
      next isThere =>
        cases made
        exact isThere.2
      next => cases made

/-- Below a path in a directory that is there, directories are made only at the path and below
it. -/
theorem sameOutside_makeDirectories {existOk : Bool} {base : List Name}
    (made : tree.makeDirectories existOk path = .ok next) (inside : base <+: path)
    (isDirectory : tree.IsDirectory base.dropLast) : tree.SameOutside next base := by
  intro other outside
  rcases madeOnWay_of_makeDirectories made other with same | ⟨missing, _, onWay⟩
  · exact same
  · have above : other <+: base :=
      (List.prefix_or_prefix_of_prefix onWay inside).resolve_right outside
    have notBase : other ≠ base := fun same => outside (same ▸ List.prefix_rfl)
    have aboveParent := prefix_dropLast above notBase
    have isThere : tree.IsDirectory other := by
      by_cases same : other = base.dropLast
      · rw [same]
        exact isDirectory
      · exact isDirectory_of_prefix (Option.isSome_of_eq_some isDirectory)
          (prefix_dropLast aboveParent same)
    cases missing.symm.trans isThere

/-- Where no file is above a path, what is not there is just not found. -/
theorem missing_of_noFile
    (noFile : ∀ above : List Name, above <+: path.dropLast → tree.file above = none) :
    tree.missing path = .fileNotFound := by
  refine if_neg fun blocked => ?_
  obtain ⟨above, isAbove, isThere⟩ := List.any_eq_true.mp blocked
  rw [noFile above ((List.mem_inits _ _).mp isAbove)] at isThere
  cases isThere

theorem makeDirectory_of_missing (isMissing : tree.node path = none)
    (inside : tree.IsDirectory path.dropLast) : ∃ next, tree.makeDirectory path = .ok next := by
  unfold makeDirectory
  rw [dif_pos isMissing, dif_pos inside]
  exact ⟨_, rfl⟩

theorem makeUpwards_of_noFile {upwards : List Name}
    (noFile : ∀ above, above <+: upwards.reverse → tree.file above = none) :
    ∃ next, tree.makeUpwards true upwards = .ok next := by
  induction upwards with
  | nil => exact ⟨tree, rfl⟩
  | cons name above inductionHypothesis =>
    have parent : (name :: above).reverse.dropLast = above.reverse := by
      rw [List.reverse_cons, List.dropLast_concat]
    have wayUp : above.reverse <+: (name :: above).reverse := by
      rw [List.reverse_cons]
      exact List.prefix_append _ _
    unfold makeUpwards
    cases found : tree.node (name :: above).reverse with
    | some node =>
      have isThere : tree.makeDirectory (name :: above).reverse = .error .fileExists := by
        unfold makeDirectory
        refine dif_neg fun free => ?_
        cases found.symm.trans free
      rw [isThere]
      cases node with
      | directory => exact ⟨tree, if_pos ⟨rfl, found⟩⟩
      | file content =>
        cases (noFile _ List.prefix_rfl).symm.trans (file_eq_some_iff.mpr found)
    | none =>
      by_cases inside : tree.IsDirectory above.reverse
      · obtain ⟨next, made⟩ := makeDirectory_of_missing found (parent.symm ▸ inside)
        rw [made]
        exact ⟨next, rfl⟩
      · have isMissing : tree.makeDirectory (name :: above).reverse = .error .fileNotFound := by
          unfold makeDirectory
          rw [dif_pos found, dif_neg (parent.symm ▸ inside), missing_of_noFile]
          exact fun other onWay => noFile other ((parent ▸ onWay).trans wayUp)
        obtain ⟨between, reached⟩ :=
          inductionHypothesis fun other onWay => noFile other (onWay.trans wayUp)
        have stillFree : between.node (name :: above).reverse = none := by
          rcases madeOnWay_of_makeUpwards reached (name :: above).reverse with same | ⟨_, _, onWay⟩
          · exact same.trans found
          · have shorter := onWay.length_le
            rw [List.length_reverse, List.length_reverse, List.length_cons] at shorter
            omega
        have made : tree.makeDirectories true above.reverse = .ok between := by
          unfold makeDirectories
          rwa [List.reverse_reverse]
        have nowInside := isDirectory_of_makeDirectories made
        rw [← parent] at nowInside
        obtain ⟨next, made⟩ := makeDirectory_of_missing stillFree nowInside
        rw [isMissing, reached]
        exact ⟨next, made⟩

/-- Directories can be made exactly where no file is on the way. -/
theorem makeDirectories_eq_ok_iff : (∃ next, tree.makeDirectories true path = .ok next) ↔
    ∀ above, above <+: path → tree.file above = none := by
  constructor
  · rintro ⟨next, made⟩ above onWay
    have isThere := isDirectory_of_makeDirectories made
    have isDirectory : next.IsDirectory above := by
      by_cases same : above = path
      · rw [same]
        exact isThere
      · exact isDirectory_of_prefix (Option.isSome_of_eq_some isThere) (prefix_dropLast onWay same)
    rw [← file_of_makeDirectories made]
    exact file_of_isDirectory isDirectory
  · intro noFile
    refine makeUpwards_of_noFile fun above onWay => noFile above ?_
    rwa [List.reverse_reverse] at onWay

/-- Nothing is below a file, so that removing it takes no other. -/
theorem file_of_unlink_file (isFile : tree.file path = some content)
    (removed : tree.unlink path = .ok next) : next.file = Function.update tree.file path none := by
  funext other
  rw [file_of_unlink removed, Function.update_apply]
  by_cases same : other = path
  · rw [if_pos same, if_pos (same ▸ List.prefix_rfl)]
  · rw [if_neg same]
    refine ite_eq_right_iff.mpr fun below => ?_
    by_contra isOther
    have isThere : (tree.node other).isSome := by
      refine Option.isSome_iff_ne_none.mpr fun isNone => isOther ?_
      exact (congrArg contentOf isNone).symm
    have isDirectory := isDirectory_of_prefix isThere (prefix_dropLast below (Ne.symm same))
    cases (file_eq_some_iff.mp isFile).symm.trans isDirectory

/-- A directory is not written over. -/
theorem isDirectory_of_writeFile (isDirectory : tree.IsDirectory other)
    (written : tree.writeFile path content = .ok next) : next.IsDirectory other := by
  obtain ⟨inside, free, rfl⟩ := eq_put_of_writeFile written
  refine (node_put inside free other).trans ((if_neg ?_).trans isDirectory)
  exact fun same : other = path => free (same ▸ isDirectory)

/-- No directory goes when a file is removed. -/
theorem isDirectory_of_unlink (isDirectory : tree.IsDirectory other)
    (removed : tree.unlink path = .ok next) : next.IsDirectory other := by
  have notDirectory : ¬ tree.IsDirectory path := by
    intro isThere
    unfold unlink at removed
    rw [show tree.node path = _ from isThere] at removed
    cases removed
  rw [eq_cut_of_unlink removed]
  refine (node_cut path other).trans ((if_neg ?_).trans isDirectory)
  rintro ⟨_, below⟩
  have notSame : path ≠ other := fun same => notDirectory (same ▸ isDirectory)
  refine notDirectory ?_
  exact isDirectory_of_prefix (Option.isSome_of_eq_some isDirectory) (prefix_dropLast below notSame)

/-! ### What holds of all files -/

section AllFiles

variable {property : Content → Prop}

theorem allFiles_empty : (empty : FileTree Name Content).AllFiles property := by
  intro path content isFile
  rw [file_eq_some_iff] at isFile
  unfold node nodeAt at isFile
  split at isFile
  · cases isFile
  · cases isFile

theorem AllFiles.of_same (all : tree.AllFiles property) (same : next.file = tree.file) :
    next.AllFiles property :=
  fun path content isFile => all path content (same ▸ isFile)

/-- What is left of the files still is of the kind. -/
theorem AllFiles.of_removed {removed : List Name} (all : tree.AllFiles property)
    (left : ∀ other, next.file other = if removed <+: other then none else tree.file other) :
    next.AllFiles property := by
  intro path content isFile
  rw [left] at isFile
  split at isFile
  · cases isFile
  · exact all path content isFile

theorem AllFiles.put_directory (all : tree.AllFiles property)
    (inside : tree.IsDirectory path.dropLast) (free : ¬ tree.IsDirectory path) :
    (tree.put path .directory inside free).AllFiles property := by
  intro other content isFile
  rw [file_put] at isFile
  split at isFile
  · cases isFile
  · exact all other content isFile

/-- After a file is written all files are of the kind exactly if its content is. -/
theorem AllFiles.writeFile_iff (all : tree.AllFiles property)
    (written : tree.writeFile path content = .ok next) :
    next.AllFiles property ↔ property content := by
  constructor
  · intro allNext
    exact allNext path content ((file_of_writeFile written path).trans (if_pos rfl))
  · intro holds other found isFile
    rw [file_of_writeFile written] at isFile
    split at isFile
    · cases isFile
      exact holds
    · exact all other found isFile

end AllFiles

end FileTree

end LiteHorse.FileTrees
