/-
This file is about a table that keeps the history of named entries. Every row carries a
name, a version number, a content and whether it is the current row of its name; at most
one row of a name is current. Creating an entry inserts its version 1, updating it retires
the current row and inserts the next version, deleting it retires the current row, and
rolling back makes an earlier version current again. Rows are never removed.

The next version number is taken from the current row, so nothing forces it to be new. The
file names the steps that take a number still free (`FreshVersion`) and proves that they
are exactly the ones that keep a version number of a name unique, and that under them a
rollback finds the content its version number was first written with.
-/

import LiteHorse.Library.Runs
import Mathlib.Data.List.Pairwise
import Mathlib.Tactic.Common

namespace LiteHorse.Versions

open Runs

/-- What a statement on the table raises. -/
inductive Error where
  | multipleResultsFound
  | integrityError
  deriving DecidableEq

/-- The one row a query selects, if any; more than one raise. -/
def scalarOneOrNone {Value : Type*} : List Value → Except Error (Option Value)
  | [] => .ok none
  | [value] => .ok (some value)
  | _ => .error .multipleResultsFound

theorem scalarOneOrNone_eq_some {Value : Type*} {values : List Value} {value : Value} :
    scalarOneOrNone values = .ok (some value) ↔ values = [value] := by
  match values with
  | [] => simp [scalarOneOrNone]
  | [only] => simp [scalarOneOrNone]
  | first :: second :: rest => simp [scalarOneOrNone]

theorem scalarOneOrNone_eq_none {Value : Type*} {values : List Value} :
    scalarOneOrNone values = .ok none ↔ values = [] := by
  match values with
  | [] => simp [scalarOneOrNone]
  | [only] => simp [scalarOneOrNone]
  | first :: second :: rest => simp [scalarOneOrNone]

structure Row (Name Content : Type*) where
  name : Name
  version : Int
  isCurrent : Bool
  content : Content

section Table

variable {Name Content : Type*} [DecidableEq Name]

/-- The row is the current row of the name. -/
def Row.currentOf (name : Name) (row : Row Name Content) : Bool :=
  row.name = name && row.isCurrent

/-- The row is the given version of the name. -/
def Row.versionOf (name : Name) (version : Int) (row : Row Name Content) : Bool :=
  row.name = name && row.version = version

/-- Insert a current row and return it; the unique index on the names of the current rows
may refuse it. -/
def insertCurrent (rows : List (Row Name Content)) (name : Name) (version : Int)
    (content : Content) : Except Error (List (Row Name Content) × Row Name Content) :=
  let row := { name, version, isCurrent := true, content }
  if rows.any (Row.currentOf name) then .error .integrityError else .ok (rows ++ [row], row)

/-- Retire the current row of a name. -/
def retire (rows : List (Row Name Content)) (name : Name) : List (Row Name Content) :=
  rows.map fun row => if row.currentOf name then { row with isCurrent := false } else row

/-- Make the rows of a version current. -/
def promote (rows : List (Row Name Content)) (name : Name) (version : Int) :
    List (Row Name Content) :=
  rows.map fun row =>
    if row.versionOf name version then { row with isCurrent := true } else row

/-- Insert version 1 of a name. -/
def create (rows : List (Row Name Content)) (name : Name) (content : Content) :
    Except Error (List (Row Name Content) × Row Name Content) :=
  insertCurrent rows name 1 content

/-- Retire the current row and insert its successor; `none` when there is no current row. -/
def update (rows : List (Row Name Content)) (name : Name) (patch : Content → Content) :
    Except Error (Option (List (Row Name Content) × Row Name Content)) := do
  match ← scalarOneOrNone (rows.filter (Row.currentOf name)) with
  | none => return none
  | some current =>
    return some (← insertCurrent (retire rows name) name (current.version + 1)
      (patch current.content))

/-- Retire the current row; `none` when there is none. -/
def delete (rows : List (Row Name Content)) (name : Name) :
    Except Error (Option (List (Row Name Content))) := do
  match ← scalarOneOrNone (rows.filter (Row.currentOf name)) with
  | none => return none
  | some _ => return some (retire rows name)

/-- Make a version of the name current again and return its row; `none` when there is no
such version. -/
def rollback (rows : List (Row Name Content)) (name : Name) (version : Int) :
    Except Error (Option (List (Row Name Content) × Row Name Content)) := do
  match ← scalarOneOrNone (rows.filter (Row.versionOf name version)) with
  | none => return none
  | some target =>
    return some (promote (retire rows name) name version, { target with isCurrent := true })

/-- A step on the table, with arbitrary arguments. -/
inductive Step (Name Content : Type*) where
  | create (name : Name) (content : Content)
  | update (name : Name) (patch : Content → Content)
  | delete (name : Name)
  | rollback (name : Name) (version : Int)

/-- The rows after a step. A step that raises or finds no row changes nothing. -/
def apply (rows : List (Row Name Content)) : Step Name Content → List (Row Name Content)
  | .create name content =>
    match create rows name content with
    | .ok (next, _) => next
    | .error _ => rows
  | .update name patch =>
    match update rows name patch with
    | .ok (some (next, _)) => next
    | _ => rows
  | .delete name =>
    match delete rows name with
    | .ok (some next) => next
    | _ => rows
  | .rollback name version =>
    match rollback rows name version with
    | .ok (some (next, _)) => next
    | _ => rows

/-! ### Histories -/

/-- A table together with the rows it was ever given, in the order they were written. -/
structure History (Name Content : Type*) where
  rows : List (Row Name Content)
  written : List (Row Name Content)

/-- The rows a step writes: those past the length the table had. -/
def History.step (history : History Name Content) (step : Step Name Content) :
    Option (History Name Content) :=
  let next := apply history.rows step
  some ⟨next, history.written ++ next.drop history.rows.length⟩

/-- The content a version of a name had when it was first written. -/
def History.firstWritten (history : History Name Content) (name : Name) (version : Int) :
    Option Content :=
  (history.written.find? (Row.versionOf name version)).map Row.content

/-- No two rows of one name carry the same version. -/
def NoRepeatedVersion (rows : List (Row Name Content)) : Prop :=
  rows.Pairwise fun first second => ¬ (first.name = second.name ∧ first.version = second.version)

/-- A rollback never finds several rows, finds one exactly when the version was written,
and makes the content of its first writing the current one. -/
def RollbackFaithful (history : History Name Content) : Prop :=
  ∀ name version,
    match rollback history.rows name version with
    | .error _ => False
    | .ok none => history.firstWritten name version = none
    | .ok (some (next, target)) =>
      history.firstWritten name version = some target.content ∧
        target.version = version ∧ next.filter (Row.currentOf name) = [target]

/-- What the version numbers promise of one state. -/
def VersionsNameContent (history : History Name Content) : Prop :=
  NoRepeatedVersion history.rows ∧ RollbackFaithful history

/-- The number the step would give to a new row is not taken yet. -/
def FreshVersion (history : History Name Content) : Step Name Content → Prop
  | .create name _ =>
    (∀ row ∈ history.rows, row.currentOf name = false) →
      ∀ row ∈ history.rows, row.versionOf name 1 = false
  | .update name _ =>
    ∀ current ∈ history.rows, current.currentOf name = true →
      ∀ row ∈ history.rows, row.versionOf name (current.version + 1) = false
  | .delete _ | .rollback _ _ => True

/-! ### The invariant -/

/-- At most one row of a name is current. -/
def OneCurrent (rows : List (Row Name Content)) : Prop :=
  rows.Pairwise fun first second =>
    first.name = second.name → ¬ (first.isCurrent = true ∧ second.isCurrent = true)

/-- A row without the mark that later steps move. -/
def Row.key (row : Row Name Content) : Name × Int × Content :=
  (row.name, row.version, row.content)

/-- What every history of fresh steps keeps: versions and current rows are unique, and the
table still holds what was written. -/
structure Sound (history : History Name Content) : Prop where
  noRepeat : NoRepeatedVersion history.rows
  oneCurrent : OneCurrent history.rows
  kept : history.rows.map Row.key = history.written.map Row.key

/-! ### The two marks that move -/

theorem retire_eq_map (rows : List (Row Name Content)) (name : Name) :
    retire rows name =
      rows.map fun row => if row.currentOf name then { row with isCurrent := false } else row :=
  rfl

theorem key_retired (name : Name) (row : Row Name Content) :
    (if row.currentOf name then { row with isCurrent := false } else row).key = row.key := by
  split <;> rfl

theorem key_promoted (name : Name) (version : Int) (row : Row Name Content) :
    (if row.versionOf name version then { row with isCurrent := true } else row).key =
      row.key := by
  split <;> rfl

/-- The number of a row can be read from its key, so the marks do not matter. -/
theorem versionOf_of_key {row other : Row Name Content} (same : row.key = other.key)
    (name : Name) (version : Int) : row.versionOf name version = other.versionOf name version := by
  unfold Row.key at same
  rw [Prod.mk.injEq, Prod.mk.injEq] at same
  unfold Row.versionOf
  rw [same.1, same.2.1]

theorem versionOf_retired (retired : Name) (row : Row Name Content) (name : Name)
    (version : Int) :
    (if row.currentOf retired then { row with isCurrent := false } else row).versionOf name
      version = row.versionOf name version :=
  versionOf_of_key (key_retired retired row) name version

theorem map_key_retire (rows : List (Row Name Content)) (name : Name) :
    (retire rows name).map Row.key = rows.map Row.key := by
  unfold retire
  rw [List.map_map]
  exact List.map_congr_left fun row _ => key_retired name row

theorem map_key_promote (rows : List (Row Name Content)) (name : Name) (version : Int) :
    (promote rows name version).map Row.key = rows.map Row.key := by
  unfold promote
  rw [List.map_map]
  exact List.map_congr_left fun row _ => key_promoted name version row

omit [DecidableEq Name] in
/-- Whether a table repeats a version can be read from its keys. -/
theorem noRepeatedVersion_iff_keys (rows : List (Row Name Content)) :
    NoRepeatedVersion rows ↔
      (rows.map Row.key).Pairwise fun first second =>
        ¬ (first.1 = second.1 ∧ first.2.1 = second.2.1) := by
  rw [List.pairwise_map]
  rfl

omit [DecidableEq Name] in
theorem noRepeatedVersion_congr {rows other : List (Row Name Content)}
    (same : other.map Row.key = rows.map Row.key) (noRepeat : NoRepeatedVersion rows) :
    NoRepeatedVersion other := by
  rw [noRepeatedVersion_iff_keys] at noRepeat ⊢
  rwa [same]

theorem currentOf_retired (name : Name) (row : Row Name Content) :
    (if row.currentOf name then { row with isCurrent := false } else row).currentOf name =
      false := by
  cases current : row.currentOf name with
  | true => simp [Row.currentOf]
  | false => simpa using current

/-- After retiring, the name has no current row. -/
theorem any_currentOf_retire (rows : List (Row Name Content)) (name : Name) :
    (retire rows name).any (Row.currentOf name) = false := by
  rw [List.any_eq_false]
  intro row member
  obtain ⟨old, _, rfl⟩ := List.mem_map.mp member
  rw [currentOf_retired]
  exact Bool.false_ne_true

/-- Retiring and promoting leaves exactly the promoted version current. -/
theorem currentOf_promoted (name : Name) (version : Int) (row : Row Name Content)
    (retired : row.currentOf name = false) :
    (if row.versionOf name version then { row with isCurrent := true } else row).currentOf name =
      row.versionOf name version := by
  cases promoted : row.versionOf name version with
  | true =>
    have sameName : row.name = name := by
      simp only [Row.versionOf, Bool.and_eq_true, decide_eq_true_eq] at promoted
      exact promoted.1
    simp [Row.currentOf, sameName]
  | false => simpa using retired

theorem oneCurrent_retire (rows : List (Row Name Content)) (name : Name)
    (oneCurrent : OneCurrent rows) : OneCurrent (retire rows name) := by
  unfold OneCurrent retire
  rw [List.pairwise_map]
  refine oneCurrent.imp fun {first second} apart sameName both => ?_
  have firstName : first.name = second.name := by
    have firstKey := congrArg Prod.fst (key_retired name first)
    have secondKey := congrArg Prod.fst (key_retired name second)
    exact firstKey.symm.trans (sameName.trans secondKey)
  refine apart firstName ⟨?_, ?_⟩
  · have marked := both.1
    split at marked
    · cases marked
    · exact marked
  · have marked := both.2
    split at marked
    · cases marked
    · exact marked

/-- A list in which no two values can stand together has at most one. -/
theorem eq_nil_or_singleton {Value : Type*} {apart : Value → Value → Prop} {values : List Value}
    (pairwise : values.Pairwise apart) (never : ∀ first ∈ values, ∀ second ∈ values,
      ¬ apart first second) : values = [] ∨ ∃ value, values = [value] := by
  cases values with
  | nil => exact Or.inl rfl
  | cons first rest =>
    cases rest with
    | nil => exact Or.inr ⟨first, rfl⟩
    | cons second others =>
      have together := (List.pairwise_cons.mp pairwise).1 second List.mem_cons_self
      exact absurd together (never first List.mem_cons_self second (by simp))

theorem currentOf_iff (name : Name) (row : Row Name Content) :
    row.currentOf name = true ↔ row.name = name ∧ row.isCurrent = true := by
  simp [Row.currentOf]

theorem versionOf_iff (name : Name) (version : Int) (row : Row Name Content) :
    row.versionOf name version = true ↔ row.name = name ∧ row.version = version := by
  simp [Row.versionOf]

theorem filter_currentOf_cases (rows : List (Row Name Content)) (name : Name)
    (oneCurrent : OneCurrent rows) :
    rows.filter (Row.currentOf name) = [] ∨
      ∃ current, rows.filter (Row.currentOf name) = [current] := by
  refine eq_nil_or_singleton (oneCurrent.filter _) fun first firstMember second secondMember => ?_
  have firstCurrent := (currentOf_iff name first).mp (List.mem_filter.mp firstMember).2
  have secondCurrent := (currentOf_iff name second).mp (List.mem_filter.mp secondMember).2
  intro apart
  exact apart (firstCurrent.1.trans secondCurrent.1.symm) ⟨firstCurrent.2, secondCurrent.2⟩

theorem filter_versionOf_cases (rows : List (Row Name Content)) (name : Name) (version : Int)
    (noRepeat : NoRepeatedVersion rows) :
    rows.filter (Row.versionOf name version) = [] ∨
      ∃ target, rows.filter (Row.versionOf name version) = [target] := by
  refine eq_nil_or_singleton (noRepeat.filter _) fun first firstMember second secondMember => ?_
  have firstVersion := (versionOf_iff name version first).mp (List.mem_filter.mp firstMember).2
  have secondVersion := (versionOf_iff name version second).mp (List.mem_filter.mp secondMember).2
  intro apart
  exact apart ⟨firstVersion.1.trans secondVersion.1.symm,
    firstVersion.2.trans secondVersion.2.symm⟩

/-! ### What a step can do -/

/-- A step keeps the rows, moves the mark of a name off its current row or to its one row of a
version, or appends one current row whose name had none, with the number that `FreshVersion`
is about. -/
theorem apply_cases (rows : List (Row Name Content)) (step : Step Name Content)
    (oneCurrent : OneCurrent rows) :
    apply rows step = rows ∨
      (∃ name, apply rows step = retire rows name) ∨
      (∃ name version target, rows.filter (Row.versionOf name version) = [target] ∧
        apply rows step = promote (retire rows name) name version) ∨
      (∃ name content, step = .create name content ∧ rows.any (Row.currentOf name) = false ∧
        apply rows step = rows ++ [⟨name, 1, true, content⟩]) ∨
      ∃ name patch current, step = .update name patch ∧ current ∈ rows ∧
        current.currentOf name = true ∧
        apply rows step =
          retire rows name ++ [⟨name, current.version + 1, true, patch current.content⟩] := by
  cases step with
  | create name content =>
    cases taken : rows.any (Row.currentOf name) with
    | true =>
      left
      simp only [apply, create, insertCurrent, taken, if_true]
    | false =>
      right; right; right; left
      refine ⟨name, content, rfl, taken, ?_⟩
      simp only [apply, create, insertCurrent, taken, Bool.false_eq_true, if_false]
  | update name patch =>
    rcases filter_currentOf_cases rows name oneCurrent with nothing | ⟨current, found⟩
    · left
      simp only [apply, update, nothing, scalarOneOrNone]
      rfl
    · right; right; right; right
      have member : current ∈ rows.filter (Row.currentOf name) := by
        rw [found]
        exact List.mem_cons_self
      refine ⟨name, patch, current, rfl, (List.mem_filter.mp member).1,
        (List.mem_filter.mp member).2, ?_⟩
      simp only [apply, update, found, scalarOneOrNone, insertCurrent, any_currentOf_retire]
      rfl
  | delete name =>
    rcases filter_currentOf_cases rows name oneCurrent with nothing | ⟨current, found⟩
    · left
      simp only [apply, delete, nothing, scalarOneOrNone]
      rfl
    · right; left
      refine ⟨name, ?_⟩
      simp only [apply, delete, found, scalarOneOrNone]
      rfl
  | rollback name version =>
    rcases versions : rows.filter (Row.versionOf name version) with _ | ⟨target, _ | ⟨second, rest⟩⟩
    · left
      simp only [apply, rollback, versions, scalarOneOrNone]
      rfl
    · right; right; left
      refine ⟨name, version, target, versions, ?_⟩
      simp only [apply, rollback, versions, scalarOneOrNone]
      rfl
    · left
      simp only [apply, rollback, versions, scalarOneOrNone]
      rfl

theorem oneCurrent_promote (rows : List (Row Name Content)) (name : Name) (version : Int)
    (target : Row Name Content) (found : rows.filter (Row.versionOf name version) = [target])
    (oneCurrent : OneCurrent rows) : OneCurrent (promote (retire rows name) name version) := by
  have once : (retire rows name).Pairwise fun first second =>
      first.versionOf name version = true → second.versionOf name version = true → False := by
    have pairwise : (rows.filter (Row.versionOf name version)).Pairwise fun _ _ => False := by
      rw [found]
      exact List.pairwise_singleton _ _
    rw [retire_eq_map, List.pairwise_map]
    refine (List.pairwise_filter.mp pairwise).imp fun {first second} apart => ?_
    rw [versionOf_retired, versionOf_retired]
    exact apart
  have none := any_currentOf_retire rows name
  rw [List.any_eq_false] at none
  have both := (oneCurrent_retire rows name oneCurrent).and once
  unfold OneCurrent promote
  rw [List.pairwise_map]
  refine both.imp_of_mem fun {first second} firstMember secondMember apart sameName marked => ?_
  have firstName := congrArg Prod.fst (key_promoted name version first)
  have secondName := congrArg Prod.fst (key_promoted name version second)
  have same : first.name = second.name := firstName.symm.trans (sameName.trans secondName)
  by_cases own : first.name = name
  · have firstVersion : first.versionOf name version = true := by
      rw [← currentOf_promoted name version first (by simpa using none first firstMember),
        currentOf_iff]
      exact ⟨firstName.trans own, marked.1⟩
    have secondVersion : second.versionOf name version = true := by
      rw [← currentOf_promoted name version second (by simpa using none second secondMember),
        currentOf_iff]
      exact ⟨secondName.trans (same.symm.trans own), marked.2⟩
    exact apart.2 firstVersion secondVersion
  · have firstPlain : first.versionOf name version = false := by simp [Row.versionOf, own]
    have secondPlain : second.versionOf name version = false := by
      simp [Row.versionOf, ← same, own]
    refine apart.1 same ⟨?_, ?_⟩
    · simpa [firstPlain] using marked.1
    · simpa [secondPlain] using marked.2

theorem noRepeatedVersion_append (rows : List (Row Name Content)) (row : Row Name Content)
    (noRepeat : NoRepeatedVersion rows)
    (fresh : ∀ old ∈ rows, old.versionOf row.name row.version = false) :
    NoRepeatedVersion (rows ++ [row]) := by
  refine List.pairwise_append.mpr ⟨noRepeat, List.pairwise_singleton _ _, ?_⟩
  intro old member added isAdded same
  rw [List.mem_singleton.mp isAdded] at same
  have taken := (versionOf_iff row.name row.version old).mpr same
  rw [fresh old member] at taken
  cases taken

theorem oneCurrent_append (rows : List (Row Name Content)) (row : Row Name Content)
    (oneCurrent : OneCurrent rows) (free : rows.any (Row.currentOf row.name) = false) :
    OneCurrent (rows ++ [row]) := by
  refine List.pairwise_append.mpr ⟨oneCurrent, List.pairwise_singleton _ _, ?_⟩
  intro old member added isAdded sameName both
  rw [List.mem_singleton.mp isAdded] at sameName
  rw [List.any_eq_false] at free
  exact free old member ((currentOf_iff row.name old).mpr ⟨sameName, both.1⟩)

theorem versionOf_retire (rows : List (Row Name Content)) (retired name : Name) (version : Int)
    (fresh : ∀ row ∈ rows, row.versionOf name version = false) :
    ∀ row ∈ retire rows retired, row.versionOf name version = false := by
  intro row member
  obtain ⟨old, oldMember, rfl⟩ := List.mem_map.mp member
  rw [versionOf_retired]
  exact fresh old oldMember

/-- The step lemma for the current rows: no step, with a free number or not, makes two rows of
a name current. -/
theorem oneCurrent_apply (rows : List (Row Name Content)) (step : Step Name Content)
    (oneCurrent : OneCurrent rows) : OneCurrent (apply rows step) := by
  rcases apply_cases rows step oneCurrent with same | ⟨name, same⟩ |
    ⟨name, version, target, found, same⟩ | ⟨name, content, _, free, same⟩ |
    ⟨name, patch, current, _, member, isCurrent, same⟩
  · rw [same]
    exact oneCurrent
  · rw [same]
    exact oneCurrent_retire rows name oneCurrent
  · rw [same]
    exact oneCurrent_promote rows name version target found oneCurrent
  · rw [same]
    exact oneCurrent_append rows _ oneCurrent free
  · rw [same]
    exact oneCurrent_append _ _ (oneCurrent_retire rows name oneCurrent)
      (any_currentOf_retire rows name)

omit [DecidableEq Name] in
/-- The current rows of a table have distinct names. -/
theorem nodup_current (rows : List (Row Name Content)) (oneCurrent : OneCurrent rows) :
    ((rows.filter Row.isCurrent).map Row.name).Nodup := by
  unfold List.Nodup
  rw [List.pairwise_map, List.pairwise_filter]
  exact oneCurrent.imp fun apart firstCurrent secondCurrent sameName =>
    apart sameName ⟨firstCurrent, secondCurrent⟩

/-- The step lemma: a step that takes a free number keeps a history sound. -/
theorem sound_step (history : History Name Content) (step : Step Name Content)
    (sound : Sound history) (fresh : FreshVersion history step) (next : History Name Content)
    (taken : history.step step = some next) : Sound next := by
  cases taken
  rcases apply_cases history.rows step sound.oneCurrent with same | ⟨name, same⟩ |
    ⟨name, version, target, found, same⟩ | ⟨name, content, rfl, free, same⟩ |
    ⟨name, patch, current, rfl, member, isCurrent, same⟩
  · refine ⟨by rw [same]; exact sound.noRepeat, by rw [same]; exact sound.oneCurrent, ?_⟩
    simp only [same, List.drop_length, List.append_nil]
    exact sound.kept
  · have length : (retire history.rows name).length = history.rows.length := List.length_map _
    refine ⟨?_, by rw [same]; exact oneCurrent_retire _ _ sound.oneCurrent, ?_⟩
    · rw [same]
      exact noRepeatedVersion_congr (map_key_retire _ _) sound.noRepeat
    · simp only [same, ← length, List.drop_length, List.append_nil]
      rw [map_key_retire]
      exact sound.kept
  · have length : (promote (retire history.rows name) name version).length =
        history.rows.length := (List.length_map _).trans (List.length_map _)
    refine ⟨?_, ?_, ?_⟩
    · rw [same]
      exact noRepeatedVersion_congr ((map_key_promote _ _ _).trans (map_key_retire _ _))
        sound.noRepeat
    · rw [same]
      exact oneCurrent_promote _ _ _ target found sound.oneCurrent
    · simp only [same, ← length, List.drop_length, List.append_nil]
      rw [map_key_promote, map_key_retire]
      exact sound.kept
  · have notTaken : ∀ row ∈ history.rows, row.currentOf name = false := by
      intro row member
      simpa using (List.any_eq_false.mp free) row member
    refine ⟨?_, ?_, ?_⟩
    · rw [same]
      exact noRepeatedVersion_append _ _ sound.noRepeat (fresh notTaken)
    · rw [same]
      exact oneCurrent_append _ _ sound.oneCurrent free
    · simp only [same, List.drop_left, List.map_append]
      rw [sound.kept]
  · have length : (retire history.rows name).length = history.rows.length := List.length_map _
    refine ⟨?_, ?_, ?_⟩
    · rw [same]
      exact noRepeatedVersion_append _ _
        (noRepeatedVersion_congr (map_key_retire _ _) sound.noRepeat)
        (versionOf_retire _ _ _ _ (fresh current member isCurrent))
    · rw [same]
      exact oneCurrent_append _ _ (oneCurrent_retire _ _ sound.oneCurrent)
        (any_currentOf_retire _ _)
    · simp only [same, ← length, List.drop_left, List.map_append]
      rw [map_key_retire, sound.kept]

/-! ### What soundness gives to a rollback -/

/-- Two tables with the same keys find the same content under a version. -/
theorem find_content_congr {rows other : List (Row Name Content)}
    (same : rows.map Row.key = other.map Row.key) (name : Name) (version : Int) :
    (rows.find? (Row.versionOf name version)).map Row.content =
      (other.find? (Row.versionOf name version)).map Row.content := by
  have byKey : ∀ table : List (Row Name Content),
      (table.find? (Row.versionOf name version)).map Row.content =
        ((table.map Row.key).find? fun key => key.1 = name && key.2.1 = version).map
          fun key => key.2.2 := by
    intro table
    rw [List.find?_map, Option.map_map]
    rfl
  rw [byKey, byKey, same]

theorem filter_currentOf_promote (rows : List (Row Name Content)) (name : Name) (version : Int)
    (target : Row Name Content) (found : rows.filter (Row.versionOf name version) = [target]) :
    (promote (retire rows name) name version).filter (Row.currentOf name) =
      [{ target with isCurrent := true }] := by
  have sameVersions : (retire rows name).filter (Row.versionOf name version) =
      (rows.filter (Row.versionOf name version)).map fun row =>
        if row.currentOf name then { row with isCurrent := false } else row := by
    rw [retire_eq_map, List.filter_map]
    exact congrArg _ (List.filter_congr fun row _ => versionOf_retired name row name version)
  have targetVersion : target.versionOf name version = true := by
    have member : target ∈ rows.filter (Row.versionOf name version) := by
      rw [found]
      exact List.mem_cons_self
    exact (List.mem_filter.mp member).2
  have none := any_currentOf_retire rows name
  rw [List.any_eq_false] at none
  have moved : (promote (retire rows name) name version).filter (Row.currentOf name) =
      ((retire rows name).filter (Row.versionOf name version)).map fun row =>
        if row.versionOf name version then { row with isCurrent := true } else row := by
    unfold promote
    rw [List.filter_map]
    refine congrArg _ (List.filter_congr fun row member => ?_)
    exact currentOf_promoted name version row (by simpa using none row member)
  rw [moved, sameVersions, found, List.map_singleton, List.map_singleton]
  cases current : target.currentOf name with
  | true =>
    have retiredVersion :
        ({ target with isCurrent := false } : Row Name Content).versionOf name version = true :=
      targetVersion
    simp [retiredVersion]
  | false => simp [targetVersion]

theorem rollbackFaithful_of_sound (history : History Name Content) (sound : Sound history) :
    RollbackFaithful history := by
  intro name version
  have first := find_content_congr sound.kept name version
  rw [← List.head?_filter] at first
  rcases filter_versionOf_cases history.rows name version sound.noRepeat with
    nothing | ⟨target, found⟩
  · rw [nothing] at first
    simp only [rollback, nothing, scalarOneOrNone, bind, Except.bind, pure, Except.pure]
    exact first.symm
  · have targetVersion : target.versionOf name version = true := by
      have member : target ∈ history.rows.filter (Row.versionOf name version) := by
        rw [found]
        exact List.mem_cons_self
      exact (List.mem_filter.mp member).2
    rw [found] at first
    simp only [rollback, found, scalarOneOrNone, bind, Except.bind, pure, Except.pure]
    exact ⟨first.symm, ((versionOf_iff name version target).mp targetVersion).2,
      filter_currentOf_promote history.rows name version target found⟩

theorem versionsNameContent_of_sound (history : History Name Content) (sound : Sound history) :
    VersionsNameContent history :=
  ⟨sound.noRepeat, rollbackFaithful_of_sound history sound⟩

/-! ### Exactly the fresh steps -/

theorem not_noRepeatedVersion_append (rows : List (Row Name Content)) (row old : Row Name Content)
    (member : old ∈ rows) (taken : old.versionOf row.name row.version = true) :
    ¬ NoRepeatedVersion (rows ++ [row]) := by
  intro noRepeat
  have apart := (List.pairwise_append.mp noRepeat).2.2 old member row List.mem_cons_self
  exact apart ((versionOf_iff row.name row.version old).mp taken)

/-- A step that gives a taken number to a new row repeats it at once. -/
theorem repeats_of_not_fresh (history : History Name Content) (step : Step Name Content)
    (sound : Sound history) (stale : ¬ FreshVersion history step) :
    ∃ next, history.step step = some next ∧ ¬ VersionsNameContent next := by
  refine ⟨_, rfl, fun names => ?_⟩
  have noRepeat := names.1
  simp only at noRepeat
  cases step with
  | create name content =>
    simp only [FreshVersion, not_forall, Bool.not_eq_false] at stale
    obtain ⟨free, old, member, taken⟩ := stale
    have none : history.rows.any (Row.currentOf name) = false := by
      rw [List.any_eq_false]
      intro row rowMember
      rw [free row rowMember]
      exact Bool.false_ne_true
    simp only [apply, create, insertCurrent, none, Bool.false_eq_true, if_false] at noRepeat
    exact not_noRepeatedVersion_append _ _ old member taken noRepeat
  | update name patch =>
    simp only [FreshVersion, not_forall, Bool.not_eq_false] at stale
    obtain ⟨current, currentMember, isCurrent, old, member, taken⟩ := stale
    have only : history.rows.filter (Row.currentOf name) = [current] := by
      have inFilter := List.mem_filter.mpr ⟨currentMember, isCurrent⟩
      rcases filter_currentOf_cases history.rows name sound.oneCurrent with nothing | ⟨one, found⟩
      · rw [nothing] at inFilter
        cases inFilter
      · rw [found, List.mem_singleton] at inFilter
        rw [found, inFilter]
    have retired : (if old.currentOf name then { old with isCurrent := false } else old) ∈
        retire history.rows name := List.mem_map.mpr ⟨old, member, rfl⟩
    have retiredTaken := taken
    rw [← versionOf_retired name old name (current.version + 1)] at retiredTaken
    simp only [apply, update, only, scalarOneOrNone, insertCurrent, any_currentOf_retire]
      at noRepeat
    exact not_noRepeatedVersion_append _ _ _ retired retiredTaken noRepeat
  | delete name => exact stale trivial
  | rollback name version => exact stale trivial

/-- The history of a table nothing was written to. -/
def History.empty : History Name Content := ⟨[], []⟩

omit [DecidableEq Name] in
theorem sound_empty : Sound (History.empty : History Name Content) :=
  ⟨List.Pairwise.nil, List.Pairwise.nil, rfl⟩

/-- The run lemma for the current rows: in every state of every run a name has at most one. -/
theorem oneCurrent_run (steps : List (Step Name Content)) (reached : History Name Content)
    (run : exec History.step History.empty steps = some reached) : OneCurrent reached.rows := by
  have preserved : ∀ (history : History Name Content) (step : Step Name Content)
      (next : History Name Content), OneCurrent history.rows →
        history.step step = some next → OneCurrent next.rows := by
    intro history step next oneCurrent taken
    cases taken
    exact oneCurrent_apply history.rows step oneCurrent
  have initial : OneCurrent (History.empty : History Name Content).rows := List.Pairwise.nil
  exact exec_invariant History.step preserved initial run

/-- The run lemma: over any sequence of steps, every state keeps what its version numbers
promise exactly when every step takes a free number. -/
theorem always_versionsNameContent_iff (steps : List (Step Name Content)) :
    Always History.step VersionsNameContent History.empty steps ↔
      StepsMeet History.step FreshVersion History.empty steps :=
  always_iff_of_invariant History.step
    (fun history step next sound fresh taken => sound_step history step sound fresh next taken)
    versionsNameContent_of_sound
    (fun history step sound stale => repeats_of_not_fresh history step sound stale) sound_empty

end Table

end LiteHorse.Versions
