/-
This file models the blob store of a local deployment, which keeps every blob as a file below one
directory, and an object store with the same calls, which knows no directories.

The two reply alike until a key goes through a blob or ends at a directory: `replies_iff` says that
this is the only difference. Whatever the keys are, nothing outside of the directory of the store is
changed (`stays_inside`).
-/

import LiteHorse.Library.Runs
import LiteHorse.Pathlib

namespace LiteHorse.Storage.BlobLocal

open FileTrees Pathlib Python Runs

/-! ### The store -/

inductive Failure where
  | unsafeKey (message : String)
  | badName (raised : PathError)
  | notFound (key : Str)
  | os (raised : OsError)

inductive Reply where
  | done
  | body (content : ByteArray)
  | url (url : String)

/-- What a call returns or raises. -/
abbrev Result := Except Failure Reply

def isUnsafe (key : Str) : Bool :=
  key.head? = some (.char '/') || (key.splitOn (.char '/')).contains (Str.ofString "..")

/-- The parts that `pathlib` joins to a path. -/
def partsOf (key : Str) : List Str :=
  (key.splitOn (.char '/')).filter fun part => !(part = [] || part = Str.ofString ".")

/-- The whole path is encoded before it is looked at. -/
def namesOf (path : List Str) : Except PathError (List Name) :=
  match path.mapM fsencode with
  | none => .error .unicodeEncodeError
  | some names => if ∃ name ∈ names, 0 ∈ name then .error .embeddedNull else .ok names

/-- `LocalBlobStore(root)`, which makes the directory. -/
def opened (root : List Str) (tree : Tree) : Except Failure Tree :=
  match namesOf root with
  | .error raised => .error (.badName raised)
  | .ok names =>
    match tree.makeDirectories true names with
    | .error raised => .error (.os raised)
    | .ok made => .ok made

/-- `str(path)` -/
def pathText (path : List Str) : Str := .char '/' :: [.char '/'].intercalate path

/-- A byte as `quote` writes it. -/
def quoteByte (byte : UInt8) : String :=
  let char := Char.ofNat byte.toNat
  if char.isAlphanum || "_.-~/".toList.contains char then char.toString
  else
    String.ofList ('%' :: [Nat.digitChar (byte.toNat / 16), Nat.digitChar (byte.toNat % 16)].map
      Char.toUpper)

def quote (text : String) : String := String.join (text.toUTF8.toList.map quoteByte)

/-- The `file://` URL of a path; quoting takes no surrogates. -/
def urlOf (path : List Str) : Result :=
  match (pathText path).encode with
  | some text => .ok (.url ("file://" ++ quote text))
  | none => .error (.badName .unicodeEncodeError)

inductive Call where
  | put (key : Str) (body : ByteArray)
  | get (key : Str)
  | delete (key : Str)
  | presignGet (key : Str)

section Store

variable (isPrintable : Char → Bool) (root : List Str)

def unsafeKey (key : Str) : Failure :=
  .unsafeKey ("unsafe blob key: " ++ key.repr isPrintable)

/-- `_path`, which makes the directory that the path is in. -/
def pathOf (tree : Tree) (key : Str) : Except Failure (List Str) × Tree :=
  if isUnsafe key then (.error (unsafeKey isPrintable key), tree)
  else
    let path := root ++ partsOf key
    match namesOf path.dropLast with
    | .error raised => (.error (.badName raised), tree)
    | .ok parent =>
      match tree.makeDirectories true parent with
      | .error raised => (.error (.os raised), tree)
      | .ok made => (.ok path, made)

/-- Where `path.exists()`, the names of the path. -/
def existing (tree : Tree) (path : List Str) : Option (List Name) :=
  match namesOf path with
  | .ok names => if (tree.node names).isSome then some names else none
  | .error _ => none

def put (tree : Tree) (key : Str) (body : ByteArray) : Result × Tree :=
  match pathOf isPrintable root tree key with
  | (.error failure, next) => (.error failure, next)
  | (.ok path, made) =>
    match namesOf path with
    | .error raised => (.error (.badName raised), made)
    | .ok names =>
      match made.writeFile names body with
      | .error raised => (.error (.os raised), made)
      | .ok next => (.ok .done, next)

def get (tree : Tree) (key : Str) : Result × Tree :=
  match pathOf isPrintable root tree key with
  | (.error failure, next) => (.error failure, next)
  | (.ok path, made) =>
    match existing made path with
    | none => (.error (.notFound key), made)
    | some names =>
      match made.readFile names with
      | .error raised => (.error (.os raised), made)
      | .ok content => (.ok (.body content), made)

def delete (tree : Tree) (key : Str) : Result × Tree :=
  match pathOf isPrintable root tree key with
  | (.error failure, next) => (.error failure, next)
  | (.ok path, made) =>
    match existing made path with
    | none => (.ok .done, made)
    | some names =>
      match made.unlink names with
      | .error raised => (.error (.os raised), made)
      | .ok next => (.ok .done, next)

def presignGet (tree : Tree) (key : Str) : Result × Tree :=
  match pathOf isPrintable root tree key with
  | (.error failure, next) => (.error failure, next)
  | (.ok path, made) => (urlOf path, made)

def call (tree : Tree) : Call → Result × Tree
  | .put key body => put isPrintable root tree key body
  | .get key => get isPrintable root tree key
  | .delete key => delete isPrintable root tree key
  | .presignGet key => presignGet isPrintable root tree key

end Store

/-! ### An object store -/

/-- The blobs, each at the path of its key. -/
abbrev Blobs := List Name → Option ByteArray

/-- What a key names. -/
inductive Naming where
  | refused (failure : Failure)
  /-- The directory that the path is in, and the path itself if it can be a file's. -/
  | place (parent : List Name) (path : Except PathError (List Name))

section Objects

variable (isPrintable : Char → Bool) (root : List Str)

def naming (key : Str) : Naming :=
  if isUnsafe key then .refused (unsafeKey isPrintable key)
  else
    match namesOf (root ++ partsOf key).dropLast with
    | .error raised => .refused (.badName raised)
    | .ok parent => .place parent (namesOf (root ++ partsOf key))

def putBlob (blobs : Blobs) (key : Str) (body : ByteArray) : Result × Blobs :=
  match naming isPrintable root key with
  | .refused failure => (.error failure, blobs)
  | .place _ (.error raised) => (.error (.badName raised), blobs)
  | .place _ (.ok path) => (.ok .done, Function.update blobs path (some body))

def getBlob (blobs : Blobs) (key : Str) : Result :=
  match naming isPrintable root key with
  | .refused failure => .error failure
  | .place _ (.error _) => .error (.notFound key)
  | .place _ (.ok path) => (blobs path).elim (.error (.notFound key)) fun body => .ok (.body body)

def deleteBlob (blobs : Blobs) (key : Str) : Result × Blobs :=
  match naming isPrintable root key with
  | .refused failure => (.error failure, blobs)
  | .place _ (.error _) => (.ok .done, blobs)
  | .place _ (.ok path) => (.ok .done, Function.update blobs path none)

def presignBlob (key : Str) : Result :=
  match naming isPrintable root key with
  | .refused failure => .error failure
  | .place _ _ => urlOf (root ++ partsOf key)

/-- What an object store makes of a call. -/
def object (blobs : Blobs) : Call → Result × Blobs
  | .put key body => putBlob isPrintable root blobs key body
  | .get key => (getBlob isPrintable root blobs key, blobs)
  | .delete key => deleteBlob isPrintable root blobs key
  | .presignGet key => (presignBlob isPrintable root key, blobs)

end Objects

/-! ### The two stores -/

namespace Call

def key : Call → Str
  | put key _ | get key | delete key | presignGet key => key

/-- The call looks at what is at the path. -/
def looks : Call → Bool
  | put _ _ | get _ | delete _ => true
  | presignGet _ => false

end Call

def AtDirectory (tree : Tree) (path : Except PathError (List Name)) : Prop :=
  ∃ names, path = .ok names ∧ tree.IsDirectory names

/-- The key goes through a blob, or what is at its path is a directory. -/
def Call.Clashes (isPrintable : Char → Bool) (root : List Str) (tree : Tree) (call : Call) : Prop :=
  ∃ parent path, naming isPrintable root call.key = .place parent path ∧
    ((∃ above, above <+: parent ∧ (tree.file above).isSome) ∨
      call.looks = true ∧ AtDirectory tree path)

structure State where
  tree : Tree
  blobs : Blobs
  /-- What the store has replied, and what an object store replies. -/
  replies : List (Result × Result)

section System

variable (isPrintable : Char → Bool) (root : List Str)

/-- An object store with the blobs that are there already. -/
def State.initial (tree : Tree) : State where
  tree := tree
  blobs := tree.file
  replies := []

def step (state : State) (event : Call) : Option State :=
  let done := call isPrintable root state.tree event
  let asked := object isPrintable root state.blobs event
  some { tree := done.2, blobs := asked.2, replies := state.replies ++ [(done.1, asked.1)] }

end System

/-- All replies are those of an object store, and so are the blobs. -/
structure AsObjects (state : State) : Prop where
  replies : ∀ reply ∈ state.replies, reply.1 = reply.2
  blobs : state.blobs = state.tree.file

/-! ### The path of a key -/

theorem eq_osPath_of_mapM {path : List Str} {names : List Name}
    (encoded : path.mapM fsencode = some names) : names = osPath path := by
  induction path generalizing names with
  | nil =>
    cases encoded
    rfl
  | cons first rest inductionHypothesis =>
    rw [List.mapM_cons] at encoded
    obtain ⟨name, isName, encoded⟩ := Option.bind_eq_some_iff.mp encoded
    obtain ⟨others, areOthers, same⟩ := Option.bind_eq_some_iff.mp encoded
    cases same
    rw [inductionHypothesis areOthers]
    unfold osPath
    rw [List.map_cons, isName]
    rfl

theorem eq_osPath_of_namesOf {path : List Str} {names : List Name}
    (areNames : namesOf path = .ok names) : names = osPath path := by
  unfold namesOf at areNames
  split at areNames
  next => cases areNames
  next found encoded =>
    split at areNames
    · cases areNames
    · cases areNames
      exact eq_osPath_of_mapM encoded

section Path

variable {isPrintable : Char → Bool} {root : List Str} {tree made : Tree} {key : Str}
  {parent names : List Name} {path : Except PathError (List Name)} {failure : Failure}
  {raised : OsError}

theorem pathOf_of_refused (refused : naming isPrintable root key = .refused failure) :
    pathOf isPrintable root tree key = (.error failure, tree) := by
  unfold naming at refused
  unfold pathOf
  split at refused
  next isRefused =>
    cases refused
    exact if_pos isRefused
  next isSafe =>
    rw [if_neg isSafe]
    dsimp only
    cases isParent : namesOf (root ++ partsOf key).dropLast with
    | error raised =>
      rw [isParent] at refused
      cases refused
      rfl
    | ok parent =>
      rw [isParent] at refused
      cases refused

/-- A key that names a place is safe, and the directory is the one above its path. -/
theorem of_place (place : naming isPrintable root key = .place parent path) :
    isUnsafe key = false ∧ namesOf (root ++ partsOf key).dropLast = .ok parent ∧
      namesOf (root ++ partsOf key) = path := by
  unfold naming at place
  split at place
  next => cases place
  next isSafe =>
    split at place
    next => cases place
    next isParent =>
      cases place
      exact ⟨eq_false_of_ne_true isSafe, isParent, rfl⟩

theorem pathOf_of_made (place : naming isPrintable root key = .place parent path)
    (isMade : tree.makeDirectories true parent = .ok made) :
    pathOf isPrintable root tree key = (.ok (root ++ partsOf key), made) := by
  obtain ⟨isSafe, isParent, _⟩ := of_place place
  unfold pathOf
  rw [isSafe, if_neg Bool.false_ne_true]
  dsimp only
  rw [isParent]
  dsimp only
  rw [isMade]

theorem pathOf_of_blocked (place : naming isPrintable root key = .place parent path)
    (blocked : tree.makeDirectories true parent = .error raised) :
    pathOf isPrintable root tree key = (.error (.os raised), tree) := by
  obtain ⟨isSafe, isParent, _⟩ := of_place place
  unfold pathOf
  rw [isSafe, if_neg Bool.false_ne_true]
  dsimp only
  rw [isParent]
  dsimp only
  rw [blocked]

theorem parent_eq_dropLast (place : naming isPrintable root key = .place parent (.ok names)) :
    parent = names.dropLast := by
  obtain ⟨_, isParent, areNames⟩ := of_place place
  rw [eq_osPath_of_namesOf isParent, eq_osPath_of_namesOf areNames]
  exact List.map_dropLast

/-- Making the directory that a path is in leaves what is at the path. -/
theorem node_of_made (place : naming isPrintable root key = .place parent (.ok names))
    (isMade : tree.makeDirectories true parent = .ok made) : made.node names = tree.node names := by
  rcases FileTree.madeOnWay_of_makeDirectories isMade names with same | ⟨missing, _, onWay⟩
  · exact same
  · rw [parent_eq_dropLast place] at onWay
    have isRoot : names = [] := by
      by_contra notRoot
      have shorter := onWay.length_le
      have someNames := List.length_pos_of_ne_nil notRoot
      rw [List.length_dropLast] at shorter
      omega
    rw [isRoot] at missing
    cases missing.symm.trans tree.isDirectory_root

end Path

/-! ### What one call does -/

/-- The two stores reply alike and have the same blobs afterwards. -/
def Alike (done : Result × Tree) (asked : Result × Blobs) : Prop :=
  done.1 = asked.1 ∧ asked.2 = done.2.file

section Calls

variable {isPrintable : Char → Bool} {root : List Str} {tree made : Tree} {key : Str}
  {parent names : List Name} {path : Except PathError (List Name)} {failure : Failure}
  {raised : OsError} {event : Call}

/-- What raises for the path raises for the call. -/
theorem call_of_error {next : Tree}
    (stopped : pathOf isPrintable root tree event.key = (.error failure, next)) :
    call isPrintable root tree event = (.error failure, next) := by
  cases event with
  | put key body =>
    change pathOf isPrintable root tree key = (.error failure, next) at stopped
    show put isPrintable root tree key body = _
    unfold put
    rw [stopped]
  | get key =>
    change pathOf isPrintable root tree key = (.error failure, next) at stopped
    show get isPrintable root tree key = _
    unfold get
    rw [stopped]
  | delete key =>
    change pathOf isPrintable root tree key = (.error failure, next) at stopped
    show delete isPrintable root tree key = _
    unfold delete
    rw [stopped]
  | presignGet key =>
    change pathOf isPrintable root tree key = (.error failure, next) at stopped
    show presignGet isPrintable root tree key = _
    unfold presignGet
    rw [stopped]

theorem object_of_refused (blobs : Blobs)
    (refused : naming isPrintable root event.key = .refused failure) :
    object isPrintable root blobs event = (.error failure, blobs) := by
  cases event with
  | put key body =>
    change naming isPrintable root key = .refused failure at refused
    show putBlob isPrintable root blobs key body = _
    unfold putBlob
    rw [refused]
  | get key =>
    change naming isPrintable root key = .refused failure at refused
    show (getBlob isPrintable root blobs key, blobs) = _
    unfold getBlob
    rw [refused]
  | delete key =>
    change naming isPrintable root key = .refused failure at refused
    show deleteBlob isPrintable root blobs key = _
    unfold deleteBlob
    rw [refused]
  | presignGet key =>
    change naming isPrintable root key = .refused failure at refused
    show (presignBlob isPrintable root key, blobs) = _
    unfold presignBlob
    rw [refused]

theorem urlOf_ne_os (path : List Str) (raised : OsError) : urlOf path ≠ .error (.os raised) := by
  intro same
  unfold urlOf at same
  split at same
  · cases same
  · cases same

/-- An object store has no files to fail at. -/
theorem object_ne_os (blobs : Blobs)
    (place : naming isPrintable root event.key = .place parent path) (raised : OsError) :
    (object isPrintable root blobs event).1 ≠ .error (.os raised) := by
  intro same
  cases event with
  | put key body =>
    change naming isPrintable root key = .place parent path at place
    change (putBlob isPrintable root blobs key body).1 = _ at same
    unfold putBlob at same
    rw [place] at same
    cases path with
    | error noPath => cases same
    | ok names => cases same
  | get key =>
    change naming isPrintable root key = .place parent path at place
    change getBlob isPrintable root blobs key = _ at same
    unfold getBlob at same
    rw [place] at same
    cases path with
    | error noPath => cases same
    | ok names =>
      dsimp only at same
      cases found : blobs names with
      | none =>
        rw [found] at same
        cases same
      | some body =>
        rw [found] at same
        cases same
  | delete key =>
    change naming isPrintable root key = .place parent path at place
    change (deleteBlob isPrintable root blobs key).1 = _ at same
    unfold deleteBlob at same
    rw [place] at same
    cases path with
    | error noPath => cases same
    | ok names => cases same
  | presignGet key =>
    change naming isPrintable root key = .place parent path at place
    change presignBlob isPrintable root key = _ at same
    unfold presignBlob at same
    rw [place] at same
    exact urlOf_ne_os _ raised same

theorem not_atDirectory_error (noPath : PathError) : ¬ AtDirectory tree (.error noPath) := by
  rintro ⟨names, same, _⟩
  cases same

theorem atDirectory_ok_iff : AtDirectory tree (.ok names) ↔ tree.IsDirectory names := by
  constructor
  · rintro ⟨other, same, isDirectory⟩
    cases same
    exact isDirectory
  · exact fun isDirectory => ⟨names, rfl, isDirectory⟩

theorem existing_of_error {parts : List Str} {noPath : PathError}
    (noNames : namesOf parts = .error noPath) : existing tree parts = none := by
  unfold existing
  rw [noNames]

theorem existing_of_names {parts : List Str} (areNames : namesOf parts = .ok names) :
    existing tree parts = if (tree.node names).isSome then some names else none := by
  unfold existing
  rw [areNames]

/-- Where the directory of the path is made, a blob is put unless there is a directory. -/
theorem put_alike_iff (body : ByteArray) (place : naming isPrintable root key = .place parent path)
    (isMade : tree.makeDirectories true parent = .ok made) :
    Alike (put isPrintable root tree key body) (putBlob isPrintable root tree.file key body) ↔
      ¬ AtDirectory tree path := by
  have areNames := (of_place place).2.2
  have sameFiles := FileTree.file_of_makeDirectories isMade
  unfold put putBlob
  rw [pathOf_of_made place isMade, place]
  dsimp only
  rw [areNames]
  cases path with
  | error noPath => exact iff_of_true ⟨rfl, sameFiles.symm⟩ (not_atDirectory_error noPath)
  | ok names =>
    dsimp only
    rw [atDirectory_ok_iff]
    have sameNode := node_of_made place isMade
    by_cases isDirectory : tree.IsDirectory names
    · have blocked : made.writeFile names body = .error .isADirectory :=
        dif_pos (sameNode.trans isDirectory)
      rw [blocked]
      refine iff_of_false (fun alike => ?_) (not_not.mpr isDirectory)
      cases alike.1
    · have inside : made.IsDirectory names.dropLast :=
        parent_eq_dropLast place ▸ FileTree.isDirectory_of_makeDirectories isMade
      obtain ⟨next, written⟩ := FileTree.writeFile_eq_ok_iff.mpr
        ⟨inside, fun isThere => isDirectory (sameNode.symm.trans isThere)⟩
      rw [written]
      refine iff_of_true ⟨rfl, ?_⟩ isDirectory
      funext other
      rw [FileTree.file_of_writeFile written other, sameFiles]
      exact Function.update_apply _ _ _ _

theorem get_alike_iff (place : naming isPrintable root key = .place parent path)
    (isMade : tree.makeDirectories true parent = .ok made) :
    Alike (get isPrintable root tree key) (getBlob isPrintable root tree.file key, tree.file) ↔
      ¬ AtDirectory tree path := by
  have areNames := (of_place place).2.2
  have sameFiles := FileTree.file_of_makeDirectories isMade
  unfold get getBlob
  rw [pathOf_of_made place isMade, place]
  dsimp only
  cases path with
  | error noPath =>
    rw [existing_of_error areNames]
    exact iff_of_true ⟨rfl, sameFiles.symm⟩ (not_atDirectory_error noPath)
  | ok names =>
    have sameNode := node_of_made place isMade
    rw [existing_of_names areNames, sameNode, atDirectory_ok_iff]
    unfold FileTree.IsDirectory
    cases found : tree.node names with
    | none =>
      have noFile : tree.file names = none := congrArg contentOf found
      dsimp only
      rw [noFile]
      exact iff_of_true ⟨rfl, sameFiles.symm⟩ (fun same => by cases same)
    | some node =>
      rw [if_pos (Option.isSome_some)]
      dsimp only
      cases node with
      | directory =>
        have isRead : made.readFile names = .error .isADirectory := by
          unfold FileTree.readFile
          rw [sameNode, found]
        rw [isRead, FileTree.file_of_isDirectory found]
        refine iff_of_false (fun alike => ?_) (not_not.mpr rfl)
        cases alike.1
      | file content =>
        have isFile : tree.file names = some content := FileTree.file_eq_some_iff.mpr found
        rw [FileTree.readFile_eq_ok_iff.mpr ((congrFun sameFiles names).trans isFile), isFile]
        exact iff_of_true ⟨rfl, sameFiles.symm⟩ (fun same => by cases same)

theorem delete_alike_iff (place : naming isPrintable root key = .place parent path)
    (isMade : tree.makeDirectories true parent = .ok made) :
    Alike (delete isPrintable root tree key) (deleteBlob isPrintable root tree.file key) ↔
      ¬ AtDirectory tree path := by
  have areNames := (of_place place).2.2
  have sameFiles := FileTree.file_of_makeDirectories isMade
  unfold delete deleteBlob
  rw [pathOf_of_made place isMade, place]
  dsimp only
  cases path with
  | error noPath =>
    rw [existing_of_error areNames]
    exact iff_of_true ⟨rfl, sameFiles.symm⟩ (not_atDirectory_error noPath)
  | ok names =>
    have sameNode := node_of_made place isMade
    rw [existing_of_names areNames, sameNode, atDirectory_ok_iff, ← sameFiles]
    unfold FileTree.IsDirectory
    cases found : tree.node names with
    | none =>
      have noFile : made.file names = none := congrArg contentOf (sameNode.trans found)
      refine iff_of_true ⟨rfl, ?_⟩ (fun same => by cases same)
      show Function.update made.file names none = made.file
      rw [← noFile]
      exact Function.update_eq_self names made.file
    | some node =>
      rw [if_pos (Option.isSome_some)]
      dsimp only
      cases node with
      | directory =>
        have stays : made.unlink names = .error .isADirectory := by
          unfold FileTree.unlink
          rw [sameNode, found]
        rw [stays]
        refine iff_of_false (fun alike => ?_) (not_not.mpr rfl)
        cases alike.1
      | file content =>
        have isFile : made.file names = some content :=
          FileTree.file_eq_some_iff.mpr (sameNode.trans found)
        obtain ⟨next, removed⟩ := FileTree.exists_unlink isFile
        rw [removed]
        refine iff_of_true ⟨rfl, ?_⟩ (fun same => by cases same)
        exact (FileTree.file_of_unlink_file isFile removed).symm

theorem presignGet_alike (place : naming isPrintable root key = .place parent path)
    (isMade : tree.makeDirectories true parent = .ok made) :
    Alike (presignGet isPrintable root tree key) (presignBlob isPrintable root key, tree.file) := by
  unfold presignGet presignBlob
  rw [pathOf_of_made place isMade, place]
  exact ⟨rfl, (FileTree.file_of_makeDirectories isMade).symm⟩

end Calls

/-! ### Runs -/

section Run

variable {isPrintable : Char → Bool} {root : List Str} {tree made : Tree} {state : State}

/-- A call is answered as by an object store exactly if it does not clash. -/
theorem alike_iff (event : Call) :
    Alike (call isPrintable root tree event) (object isPrintable root tree.file event) ↔
      ¬ event.Clashes isPrintable root tree := by
  cases place : naming isPrintable root event.key with
  | refused failure =>
    rw [call_of_error (pathOf_of_refused place), object_of_refused tree.file place]
    refine iff_of_true ⟨rfl, rfl⟩ ?_
    rintro ⟨parent, path, isPlace, _⟩
    cases place.symm.trans isPlace
  | place parent path =>
    have clashes_iff : event.Clashes isPrintable root tree ↔
        (∃ above, above <+: parent ∧ (tree.file above).isSome) ∨
          event.looks = true ∧ AtDirectory tree path := by
      constructor
      · rintro ⟨otherParent, otherPath, isPlace, clash⟩
        cases place.symm.trans isPlace
        exact clash
      · exact fun clash => ⟨parent, path, place, clash⟩
    rw [clashes_iff]
    cases isMade : tree.makeDirectories true parent with
    | error raised =>
      rw [call_of_error (pathOf_of_blocked place isMade)]
      refine iff_of_false (fun alike => object_ne_os tree.file place raised alike.1.symm) ?_
      refine not_not.mpr (Or.inl ?_)
      by_contra noFile
      obtain ⟨next, same⟩ := FileTree.makeDirectories_eq_ok_iff.mpr fun above onWay =>
        Option.not_isSome_iff_eq_none.mp fun isThere => noFile ⟨above, onWay, isThere⟩
      cases isMade.symm.trans same
    | ok made =>
      have noFile : ¬ ∃ above, above <+: parent ∧ (tree.file above).isSome := by
        rintro ⟨above, onWay, isThere⟩
        rw [FileTree.makeDirectories_eq_ok_iff.mp ⟨made, isMade⟩ above onWay] at isThere
        cases isThere
      rw [or_iff_right noFile]
      have looked : AtDirectory tree path ↔ true = true ∧ AtDirectory tree path :=
        (and_iff_right rfl).symm
      cases event with
      | put key body => exact (put_alike_iff body place isMade).trans (not_congr looked)
      | get key => exact (get_alike_iff place isMade).trans (not_congr looked)
      | delete key => exact (delete_alike_iff place isMade).trans (not_congr looked)
      | presignGet key =>
        exact iff_of_true (presignGet_alike place isMade) fun both => Bool.false_ne_true both.1

theorem asObjects_step_iff (event : Call) (asObjects : AsObjects state) :
    ∃ next, step isPrintable root state event = some next ∧
      (AsObjects next ↔ ¬ event.Clashes isPrintable root state.tree) := by
  refine ⟨_, rfl, ?_⟩
  rw [← alike_iff event, ← asObjects.blobs]
  constructor
  · intro kept
    exact ⟨kept.replies _ (List.mem_append_right _ List.mem_cons_self), kept.blobs⟩
  · rintro ⟨sameReply, sameBlobs⟩
    refine ⟨fun reply member => ?_, sameBlobs⟩
    rcases List.mem_append.mp member with earlier | last
    · exact asObjects.replies reply earlier
    · rw [List.mem_singleton.mp last]
      exact sameReply

theorem asObjects_initial (tree : Tree) : AsObjects (State.initial tree) :=
  ⟨fun _ member => absurd member List.not_mem_nil, rfl⟩

end Run

/-! ### The directory of the store -/

section Inside

variable {isPrintable : Char → Bool} {root : List Str} {tree made : Tree} {key : Str}
  {parent names : List Name} {path : Except PathError (List Name)}

/-- What a call can make of the tree. -/
theorem tree_of_call (event : Call) :
    (call isPrintable root tree event).2 = tree ∨
      ∃ parent path made, naming isPrintable root event.key = .place parent path ∧
        tree.makeDirectories true parent = .ok made ∧
        ((call isPrintable root tree event).2 = made ∨ ∃ names, path = .ok names ∧
          ((∃ body, made.writeFile names body = .ok (call isPrintable root tree event).2) ∨
            made.unlink names = .ok (call isPrintable root tree event).2)) := by
  cases place : naming isPrintable root event.key with
  | refused failure =>
    left
    rw [call_of_error (pathOf_of_refused place)]
  | place parent path =>
    cases isMade : tree.makeDirectories true parent with
    | error raised =>
      left
      rw [call_of_error (pathOf_of_blocked place isMade)]
    | ok made =>
      refine Or.inr ⟨parent, path, made, rfl, isMade, ?_⟩
      cases event with
      | put key body =>
        change naming isPrintable root key = .place parent path at place
        have areNames := (of_place place).2.2
        unfold call put
        dsimp only
        rw [pathOf_of_made place isMade]
        dsimp only
        rw [areNames]
        cases path with
        | error noPath => exact Or.inl rfl
        | ok names =>
          dsimp only
          cases written : made.writeFile names body with
          | error raised => exact Or.inl rfl
          | ok next => exact Or.inr ⟨names, rfl, Or.inl ⟨body, written⟩⟩
      | get key =>
        change naming isPrintable root key = .place parent path at place
        left
        unfold call get
        dsimp only
        rw [pathOf_of_made place isMade]
        dsimp only
        split
        · rfl
        · split
          · rfl
          · rfl
      | delete key =>
        change naming isPrintable root key = .place parent path at place
        have areNames := (of_place place).2.2
        unfold call delete
        dsimp only
        rw [pathOf_of_made place isMade]
        dsimp only
        cases path with
        | error noPath =>
          rw [existing_of_error areNames]
          exact Or.inl rfl
        | ok names =>
          rw [existing_of_names areNames]
          split
          next => exact Or.inl rfl
          next found isFound =>
            split at isFound
            · cases isFound
              cases removed : made.unlink names with
              | error raised => exact Or.inl rfl
              | ok next => exact Or.inr ⟨names, rfl, Or.inr removed⟩
            · cases isFound
      | presignGet key =>
        change naming isPrintable root key = .place parent path at place
        left
        unfold call presignGet
        dsimp only
        rw [pathOf_of_made place isMade]

/-- The directory of the store is made already, so that no directory outside of it is made. -/
theorem sameOutside_of_made (isRoot : tree.IsDirectory (osPath root))
    (place : naming isPrintable root key = .place parent path)
    (isMade : tree.makeDirectories true parent = .ok made) :
    tree.SameOutside made (osPath root) := by
  have isAbove : tree.IsDirectory (osPath root).dropLast :=
    tree.inDirectory _ (Option.isSome_of_eq_some isRoot)
  have isParent := eq_osPath_of_namesOf (of_place place).2.1
  by_cases noParts : partsOf key = []
  · rw [noParts, List.append_nil] at isParent
    have sameParent : parent = (osPath root).dropLast := isParent.trans List.map_dropLast
    rw [sameParent, FileTree.makeDirectories_of_isDirectory isAbove] at isMade
    cases isMade
    exact FileTree.SameOutside.refl tree _
  · refine FileTree.sameOutside_makeDirectories isMade ?_ isAbove
    rw [isParent, List.dropLast_append_of_ne_nil noParts]
    unfold osPath
    rw [List.map_append]
    exact List.prefix_append _ _

theorem root_prefix_path (place : naming isPrintable root key = .place parent (.ok names)) :
    osPath root <+: names := by
  rw [eq_osPath_of_namesOf (of_place place).2.2]
  unfold osPath
  rw [List.map_append]
  exact List.prefix_append _ _

/-- What a call changes lies in the directory of the store, which is still there. -/
theorem inside_call (isRoot : tree.IsDirectory (osPath root)) (event : Call) :
    (call isPrintable root tree event).2.IsDirectory (osPath root) ∧
      tree.SameOutside (call isPrintable root tree event).2 (osPath root) := by
  rcases tree_of_call event with
    same | ⟨parent, path, made, place, isMade, same | ⟨names, rfl, ⟨body, written⟩ | removed⟩⟩
  · rw [same]
    exact ⟨isRoot, FileTree.SameOutside.refl tree _⟩
  all_goals
    have stillRoot := (FileTree.madeOnWay_of_makeDirectories isMade _).isDirectory isRoot
    have sameMade := sameOutside_of_made isRoot place isMade
  · rw [same]
    exact ⟨stillRoot, sameMade⟩
  · have inside := (FileTree.sameOutside_writeFile written).above (root_prefix_path place)
    exact ⟨FileTree.isDirectory_of_writeFile stillRoot written, sameMade.trans inside⟩
  · have inside := (FileTree.sameOutside_unlink removed).above (root_prefix_path place)
    exact ⟨FileTree.isDirectory_of_unlink stillRoot removed, sameMade.trans inside⟩

theorem isDirectory_of_opened (isOpened : opened root tree = .ok made) :
    made.IsDirectory (osPath root) := by
  unfold opened at isOpened
  split at isOpened
  next => cases isOpened
  next names areNames =>
    split at isOpened
    next => cases isOpened
    next isMade =>
      cases isOpened
      rw [← eq_osPath_of_namesOf areNames]
      exact FileTree.isDirectory_of_makeDirectories isMade

end Inside

/-! ### The theorems -/

/-- The store is an object store in every state of a run exactly if no call clashes: if no key goes
through a blob, and none that is put, got or deleted ends at a directory. -/
theorem replies_iff (isPrintable : Char → Bool) (root : List Str) (tree : Tree)
    (calls : List Call) :
    Always (step isPrintable root) AsObjects (State.initial tree) calls ↔
      StepsMeet (step isPrintable root)
        (fun state event => ¬ event.Clashes isPrintable root state.tree)
        (State.initial tree) calls :=
  always_iff_stepsMeet _ (fun _ event asObjects => asObjects_step_iff event asObjects)
    (asObjects_initial tree)

/-- Whatever the keys are, an opened store changes nothing outside of its directory. -/
theorem stays_inside (isPrintable : Char → Bool) (root : List Str) (tree made : Tree)
    (isOpened : opened root tree = .ok made) (calls : List Call) :
    Always (step isPrintable root) (fun state => made.SameOutside state.tree (osPath root))
      (State.initial made) calls := by
  have preserved : ∀ state event next,
      state.tree.IsDirectory (osPath root) ∧ made.SameOutside state.tree (osPath root) →
      step isPrintable root state event = some next →
      next.tree.IsDirectory (osPath root) ∧ made.SameOutside next.tree (osPath root) := by
    rintro state event next ⟨isRoot, same⟩ taken
    cases taken
    obtain ⟨stillRoot, sameCall⟩ := inside_call isRoot event
    exact ⟨stillRoot, same.trans sameCall⟩
  have initial : (State.initial made).tree.IsDirectory (osPath root) ∧
      made.SameOutside (State.initial made).tree (osPath root) :=
    ⟨isDirectory_of_opened isOpened, FileTree.SameOutside.refl made _⟩
  exact (always_invariant _ preserved initial).mono _ fun _ holds => holds.2

theorem parentKey_stays_inside :
    ∃ made, opened [[.char 'b']] .empty = .ok made ∧
      Always (step (fun _ => true) [[.char 'b']])
        (fun state => made.SameOutside state.tree (osPath [[.char 'b']])) (State.initial made)
        [.put [.char 'a', .char '/', .char 'c'] .empty, .put [.char '.', .char '.'] .empty] :=
  ⟨_, rfl, stays_inside _ _ .empty _ rfl _⟩

end LiteHorse.Storage.BlobLocal
