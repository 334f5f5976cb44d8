/-
This file is about a database with foreign keys. A row carries its primary key and the keys
it refers to; a foreign key says which rows a column refers to and what becomes of the
referring row when its target is deleted. A database state is a list of rows with distinct
primary keys in which every reference has its target.

A delete takes the rows it chooses and, round by round, the rows that refer to a deleted one
by `ON DELETE CASCADE`. It fails when a row that stays refers to a deleted one by
`NO ACTION`, which is checked at the end of the statement; the `SET NULL` references to
deleted rows are cleared. `mem_doomed` says that the rounds reach every row of the cascade.
-/

import Mathlib.Data.List.Nodup
import Mathlib.Logic.Function.Iterate
import Mathlib.Tactic.Common

namespace LiteHorse.ForeignKeys

/-- What a foreign key does with the referring row when its target is deleted. -/
inductive OnDelete where
  | cascade
  | setNull
  | noAction
  deriving DecidableEq

structure ForeignKey (Table Column : Type*) where
  table : Table
  column : Column
  target : Table
  onDelete : OnDelete := .noAction

structure Row (Table Column Key Data : Type*) where
  table : Table
  key : Key
  refs : Column → Option Key
  data : Data

variable {Table Column Key Data : Type*}

/-- The row refers to the target through the foreign key. -/
def ForeignKey.Refers (foreignKey : ForeignKey Table Column)
    (row target : Row Table Column Key Data) : Prop :=
  foreignKey.table = row.table ∧ foreignKey.target = target.table ∧
    row.refs foreignKey.column = some target.key

/-- The row refers to the target through a foreign key with this action. -/
def RefersBy (schema : List (ForeignKey Table Column)) (action : OnDelete)
    (row target : Row Table Column Key Data) : Prop :=
  ∃ foreignKey ∈ schema, foreignKey.onDelete = action ∧ foreignKey.Refers row target

theorem refersBy_nil (action : OnDelete) (row target : Row Table Column Key Data) :
    RefersBy [] action row target ↔ False := by
  simp [RefersBy]

theorem refersBy_cons (foreignKey : ForeignKey Table Column)
    (schema : List (ForeignKey Table Column)) (action : OnDelete)
    (row target : Row Table Column Key Data) :
    RefersBy (foreignKey :: schema) action row target ↔
      (foreignKey.onDelete = action ∧ row.table = foreignKey.table ∧
        target.table = foreignKey.target ∧ row.refs foreignKey.column = some target.key) ∨
      RefersBy schema action row target := by
  simp [RefersBy, ForeignKey.Refers, eq_comm]

theorem refersBy_append (first second : List (ForeignKey Table Column)) (action : OnDelete)
    (row target : Row Table Column Key Data) :
    RefersBy (first ++ second) action row target ↔
      RefersBy first action row target ∨ RefersBy second action row target := by
  simp only [RefersBy, List.mem_append, or_and_right, exists_or]

/-- The foreign keys of one column that several tables have. -/
theorem refersBy_map (tables : List Table) (column : Column) (targetTable : Table)
    (onDelete action : OnDelete) (row target : Row Table Column Key Data) :
    RefersBy (tables.map fun table => ⟨table, column, targetTable, onDelete⟩) action row target ↔
      onDelete = action ∧ row.table ∈ tables ∧ target.table = targetTable ∧
        row.refs column = some target.key := by
  unfold RefersBy ForeignKey.Refers
  constructor
  · rintro ⟨_, member, sameAction, sameTable, sameTarget, refers⟩
    obtain ⟨table, inTables, rfl⟩ := List.mem_map.mp member
    exact ⟨sameAction, sameTable ▸ inTables, sameTarget.symm, refers⟩
  · rintro ⟨sameAction, inTables, sameTarget, refers⟩
    exact ⟨_, List.mem_map_of_mem inTables, sameAction, rfl, sameTarget.symm, refers⟩

/-- Every reference of every row has its target. -/
def RefsValid (schema : List (ForeignKey Table Column))
    (rows : List (Row Table Column Key Data)) : Prop :=
  ∀ foreignKey ∈ schema, ∀ row ∈ rows, foreignKey.table = row.table →
    ∀ key, row.refs foreignKey.column = some key →
      ∃ target ∈ rows, target.table = foreignKey.target ∧ target.key = key

/-- A database state of a schema. -/
structure Database (schema : List (ForeignKey Table Column)) (Key Data : Type*) where
  rows : List (Row Table Column Key Data)
  keysDistinct : (rows.map fun row => (row.table, row.key)).Nodup
  refsValid : RefsValid schema rows

/-- Two rows of a state with one primary key are the same row. -/
theorem Database.row_unique {schema : List (ForeignKey Table Column)}
    (database : Database schema Key Data) {first second : Row Table Column Key Data}
    (firstMember : first ∈ database.rows) (secondMember : second ∈ database.rows)
    (sameTable : first.table = second.table) (sameKey : first.key = second.key) :
    first = second :=
  List.inj_on_of_nodup_map database.keysDistinct firstMember secondMember
    (Prod.ext sameTable sameKey)

/-- The rows a delete takes: the chosen ones and all that refer to them through cascades. -/
inductive Doomed (schema : List (ForeignKey Table Column))
    (chosen : Row Table Column Key Data → Bool) (rows : List (Row Table Column Key Data)) :
    Row Table Column Key Data → Prop
  | chosen {row} : row ∈ rows → chosen row = true → Doomed schema chosen rows row
  | cascade {row target} : row ∈ rows → Doomed schema chosen rows target →
    RefersBy schema .cascade row target → Doomed schema chosen rows row

theorem Doomed.mem {schema : List (ForeignKey Table Column)}
    {chosen : Row Table Column Key Data → Bool} {rows : List (Row Table Column Key Data)}
    {row : Row Table Column Key Data} (doomed : Doomed schema chosen rows row) : row ∈ rows := by
  cases doomed with
  | chosen member => exact member
  | cascade member => exact member

theorem doomed_iff {schema : List (ForeignKey Table Column)}
    {chosen : Row Table Column Key Data → Bool} {rows : List (Row Table Column Key Data)}
    {row : Row Table Column Key Data} :
    Doomed schema chosen rows row ↔
      row ∈ rows ∧ (chosen row = true ∨
        ∃ target, Doomed schema chosen rows target ∧ RefersBy schema .cascade row target) := by
  constructor
  · intro doomed
    cases doomed with
    | chosen member isChosen => exact ⟨member, Or.inl isChosen⟩
    | cascade member doomed refers => exact ⟨member, Or.inr ⟨_, doomed, refers⟩⟩
  · rintro ⟨member, isChosen | ⟨target, doomed, refers⟩⟩
    · exact .chosen member isChosen
    · exact .cascade member doomed refers

/-! ### Rounds until nothing changes -/

/-- A round that only ever adds, and stays within a list, changes nothing any more after as
many rounds as the list is long. -/
theorem iterate_stable {Item : Type*} (round : List Item → List Item) (bound : List Item)
    (within : ∀ items, (round items).Sublist bound)
    (adds : ∀ fewer more, fewer ⊆ more → (round fewer).Sublist (round more)) :
    round (round^[bound.length] []) = round^[bound.length] [] := by
  have grows : ∀ count, (round^[count] []).Sublist (round (round^[count] [])) := by
    intro count
    induction count with
    | zero => exact List.nil_sublist _
    | succ count inductionHypothesis =>
      rw [Function.iterate_succ_apply']
      exact adds _ _ inductionHypothesis.subset
  have stableOrLong : ∀ count,
      round (round^[count] []) = round^[count] [] ∨ count < (round (round^[count] [])).length := by
    intro count
    induction count with
    | zero =>
      rw [Function.iterate_zero_apply]
      exact (Classical.em (round [] = [])).imp id List.length_pos_of_ne_nil
    | succ count inductionHypothesis =>
      rw [Function.iterate_succ_apply']
      rcases inductionHypothesis with stable | long
      · exact Or.inl (congrArg round stable)
      · by_cases same : (round (round^[count] [])).length =
          (round (round (round^[count] []))).length
        · refine Or.inl ((List.Sublist.eq_of_length ?_ same).symm)
          exact adds _ _ (grows count).subset
        · have atMost := (adds _ _ (grows count).subset).length_le
          right
          omega
  refine (stableOrLong bound.length).resolve_right ?_
  exact Nat.not_lt.mpr (within _).length_le

/-! ### The delete -/

section Delete

variable [DecidableEq Table] [DecidableEq Key]

instance (foreignKey : ForeignKey Table Column) (row target : Row Table Column Key Data) :
    Decidable (foreignKey.Refers row target) :=
  inferInstanceAs (Decidable (_ ∧ _ ∧ _))

instance (schema : List (ForeignKey Table Column)) (action : OnDelete)
    (row target : Row Table Column Key Data) : Decidable (RefersBy schema action row target) :=
  inferInstanceAs (Decidable (∃ foreignKey ∈ schema, _))

instance (schema : List (ForeignKey Table Column)) (rows : List (Row Table Column Key Data)) :
    Decidable (RefsValid schema rows) :=
  decidable_of_iff (∀ foreignKey ∈ schema, ∀ row ∈ rows, foreignKey.table = row.table →
    ∀ key ∈ row.refs foreignKey.column,
      ∃ target ∈ rows, target.table = foreignKey.target ∧ target.key = key) Iff.rfl

section Rounds

variable (schema : List (ForeignKey Table Column)) (chosen : Row Table Column Key Data → Bool)
  (rows : List (Row Table Column Key Data))

/-- A row is struck when it is chosen or refers by cascade to a row known as doomed. -/
def struck (doomed : List (Row Table Column Key Data)) (row : Row Table Column Key Data) : Bool :=
  chosen row || doomed.any fun target => RefersBy schema .cascade row target

/-- One round of the cascade. -/
def cascadeRound (doomed : List (Row Table Column Key Data)) :
    List (Row Table Column Key Data) :=
  rows.filter (struck schema chosen doomed)

/-- The doomed rows, found in as many rounds as there are rows. -/
def doomedRows : List (Row Table Column Key Data) :=
  (cascadeRound schema chosen rows)^[rows.length] []

/-- The rows that stay. -/
def keptRows : List (Row Table Column Key Data) :=
  rows.filter fun row => !struck schema chosen (doomedRows schema chosen rows) row

variable {schema chosen rows}

theorem struck_iff {doomed : List (Row Table Column Key Data)} {row : Row Table Column Key Data} :
    struck schema chosen doomed row = true ↔
      chosen row = true ∨ ∃ target ∈ doomed, RefersBy schema .cascade row target := by
  simp [struck]

theorem mem_cascadeRound {doomed : List (Row Table Column Key Data)}
    {row : Row Table Column Key Data} :
    row ∈ cascadeRound schema chosen rows doomed ↔
      row ∈ rows ∧
        (chosen row = true ∨ ∃ target ∈ doomed, RefersBy schema .cascade row target) := by
  rw [cascadeRound, List.mem_filter, struck_iff]

theorem cascadeRound_mono (fewer more : List (Row Table Column Key Data)) (subset : fewer ⊆ more) :
    (cascadeRound schema chosen rows fewer).Sublist (cascadeRound schema chosen rows more) := by
  refine List.monotone_filter_right rows fun row holds => ?_
  rw [struck_iff] at holds ⊢
  exact holds.imp id fun ⟨target, member, refers⟩ => ⟨target, subset member, refers⟩

theorem cascadeRound_doomedRows :
    cascadeRound schema chosen rows (doomedRows schema chosen rows) =
      doomedRows schema chosen rows :=
  iterate_stable _ rows (fun _ => List.filter_sublist) cascadeRound_mono

theorem doomed_of_mem_iterate (count : Nat) {row : Row Table Column Key Data}
    (member : row ∈ (cascadeRound schema chosen rows)^[count] []) :
    Doomed schema chosen rows row := by
  induction count generalizing row with
  | zero => exact absurd member List.not_mem_nil
  | succ count inductionHypothesis =>
    rw [Function.iterate_succ_apply', mem_cascadeRound] at member
    obtain ⟨inRows, isChosen | ⟨target, targetMember, refers⟩⟩ := member
    · exact .chosen inRows isChosen
    · exact .cascade inRows (inductionHypothesis targetMember) refers

/-- The rounds find the rows of the cascade, and no others. -/
theorem mem_doomedRows {row : Row Table Column Key Data} :
    row ∈ doomedRows schema chosen rows ↔ Doomed schema chosen rows row := by
  refine ⟨doomed_of_mem_iterate rows.length, fun doomed => ?_⟩
  induction doomed with
  | chosen member isChosen =>
    rw [← cascadeRound_doomedRows]
    exact mem_cascadeRound.mpr ⟨member, Or.inl isChosen⟩
  | cascade member _ refers inductionHypothesis =>
    rw [← cascadeRound_doomedRows]
    exact mem_cascadeRound.mpr ⟨member, Or.inr ⟨_, inductionHypothesis, refers⟩⟩

theorem mem_keptRows {row : Row Table Column Key Data} :
    row ∈ keptRows schema chosen rows ↔ row ∈ rows ∧ ¬ Doomed schema chosen rows row := by
  rw [keptRows, List.mem_filter, Bool.not_eq_true', ← Bool.not_eq_true, ← mem_doomedRows]
  refine and_congr_right fun member => not_congr ?_
  rw [← cascadeRound_doomedRows, mem_cascadeRound, struck_iff, cascadeRound_doomedRows]
  exact (and_iff_right member).symm

end Rounds

variable [DecidableEq Column]

/-- The row with the `SET NULL` references to doomed rows cleared. -/
def clearRefs (schema : List (ForeignKey Table Column))
    (doomed : List (Row Table Column Key Data)) (row : Row Table Column Key Data) :
    Row Table Column Key Data :=
  { row with
    refs := fun column =>
      if ∃ foreignKey ∈ schema, foreignKey.onDelete = .setNull ∧ foreignKey.column = column ∧
          ∃ target ∈ doomed, foreignKey.Refers row target
      then none else row.refs column }

theorem clearRefs_eq_some {schema : List (ForeignKey Table Column)}
    {doomed : List (Row Table Column Key Data)} {row : Row Table Column Key Data}
    {column : Column} {key : Key} :
    (clearRefs schema doomed row).refs column = some key ↔
      row.refs column = some key ∧
        ∀ foreignKey ∈ schema, foreignKey.onDelete = .setNull → foreignKey.column = column →
          ∀ target ∈ doomed, ¬ foreignKey.Refers row target := by
  unfold clearRefs
  simp only [ite_eq_iff, reduceCtorEq, and_false, false_or, not_exists, not_and]
  exact and_comm

variable {schema : List (ForeignKey Table Column)} {chosen : Row Table Column Key Data → Bool}

/-- With no `NO ACTION` reference from a row that stays to one that goes, the rows that stay
have all their targets. -/
theorem refsValid_kept {rows : List (Row Table Column Key Data)} (valid : RefsValid schema rows)
    (unblocked : ∀ row ∈ keptRows schema chosen rows, ∀ target ∈ doomedRows schema chosen rows,
      ¬ RefersBy schema .noAction row target) :
    RefsValid schema ((keptRows schema chosen rows).map
      (clearRefs schema (doomedRows schema chosen rows))) := by
  intro foreignKey inSchema cleared clearedMember sameTable key clearedRefers
  obtain ⟨row, member, rfl⟩ := List.mem_map.mp clearedMember
  rw [clearRefs_eq_some] at clearedRefers
  obtain ⟨refers, notNulled⟩ := clearedRefers
  obtain ⟨inRows, stays⟩ := mem_keptRows.mp member
  obtain ⟨target, targetInRows, targetTable, targetKey⟩ :=
    valid foreignKey inSchema row inRows sameTable key refers
  have refersTo : foreignKey.Refers row target := by
    refine ⟨sameTable, targetTable.symm, ?_⟩
    rw [refers, targetKey]
  have targetStays : ¬ Doomed schema chosen rows target := by
    intro doomed
    have targetMember := mem_doomedRows.mpr doomed
    cases action : foreignKey.onDelete with
    | cascade =>
      exact stays (.cascade inRows doomed ⟨foreignKey, inSchema, action, refersTo⟩)
    | setNull => exact notNulled foreignKey inSchema action rfl target targetMember refersTo
    | noAction =>
      exact unblocked row member target targetMember ⟨foreignKey, inSchema, action, refersTo⟩
  refine ⟨clearRefs schema (doomedRows schema chosen rows) target, ?_, targetTable, targetKey⟩
  exact List.mem_map_of_mem (mem_keptRows.mpr ⟨targetInRows, targetStays⟩)

/-- `DELETE FROM … WHERE`: `none` when a row that stays refers by `NO ACTION` to one that
goes. -/
def Database.deleteWhere (database : Database schema Key Data)
    (chosen : Row Table Column Key Data → Bool) : Option (Database schema Key Data) :=
  if unblocked : ∀ row ∈ keptRows schema chosen database.rows,
      ∀ target ∈ doomedRows schema chosen database.rows, ¬ RefersBy schema .noAction row target then
    some
      { rows := (keptRows schema chosen database.rows).map
          (clearRefs schema (doomedRows schema chosen database.rows))
        keysDistinct := by
          rw [List.map_map]
          exact database.keysDistinct.sublist (List.filter_sublist.map _)
        refsValid := refsValid_kept database.refsValid unblocked }
  else none

/-- A row that stays refers by `NO ACTION` to one that goes. -/
def Database.Blocked (database : Database schema Key Data)
    (chosen : Row Table Column Key Data → Bool) : Prop :=
  ∃ row ∈ database.rows, ¬ Doomed schema chosen database.rows row ∧
    ∃ target, Doomed schema chosen database.rows target ∧ RefersBy schema .noAction row target

theorem Database.deleteWhere_eq_none {database : Database schema Key Data} :
    database.deleteWhere chosen = none ↔ database.Blocked chosen := by
  rw [deleteWhere, dite_eq_right_iff]
  simp only [reduceCtorEq, imp_false, not_forall, mem_keptRows, mem_doomedRows, not_not,
    exists_prop, and_assoc]
  exact Iff.rfl

/-- After a delete the rows are those that were not doomed, with their references to doomed
rows cleared. -/
theorem Database.mem_deleteWhere {database next : Database schema Key Data}
    (deleted : database.deleteWhere chosen = some next) {row : Row Table Column Key Data} :
    row ∈ next.rows ↔ ∃ old ∈ database.rows, ¬ Doomed schema chosen database.rows old ∧
      clearRefs schema (doomedRows schema chosen database.rows) old = row := by
  rw [deleteWhere, Option.dite_none_right_eq_some] at deleted
  obtain ⟨_, same⟩ := deleted
  rw [← Option.some.inj same]
  simp only [List.mem_map, mem_keptRows, and_assoc]

theorem clearRefs_eq_self {doomed : List (Row Table Column Key Data)}
    {row : Row Table Column Key Data}
    (unrelated : ∀ foreignKey ∈ schema, ∀ target ∈ doomed, ¬ foreignKey.Refers row target) :
    clearRefs schema doomed row = row := by
  have notCleared : ∀ column, ¬ ∃ foreignKey ∈ schema, foreignKey.onDelete = .setNull ∧
      foreignKey.column = column ∧ ∃ target ∈ doomed, foreignKey.Refers row target := by
    rintro column ⟨foreignKey, inSchema, _, _, target, member, refers⟩
    exact unrelated foreignKey inSchema target member refers
  unfold clearRefs
  simp only [if_neg (notCleared _)]

/-- A delete from tables nothing refers to takes the chosen rows and leaves the others as they
are. -/
theorem Database.deleteWhere_unreferenced (database : Database schema Key Data)
    (chosen : Row Table Column Key Data → Bool)
    (unreferenced : ∀ foreignKey ∈ schema, ∀ row, chosen row = true →
      foreignKey.target ≠ row.table) :
    ∃ next, database.deleteWhere chosen = some next ∧
      ∀ row, row ∈ next.rows ↔ row ∈ database.rows ∧ chosen row = false := by
  have notReferred : ∀ foreignKey ∈ schema, ∀ row target : Row Table Column Key Data,
      chosen target = true → ¬ foreignKey.Refers row target :=
    fun foreignKey inSchema _ target isChosen refers =>
      unreferenced foreignKey inSchema target isChosen refers.2.1
  have chosenOfDoomed : ∀ row, Doomed schema chosen database.rows row → chosen row = true := by
    intro row doomed
    induction doomed with
    | chosen _ isChosen => exact isChosen
    | cascade _ _ refers isChosen =>
      obtain ⟨foreignKey, inSchema, _, refers⟩ := refers
      exact absurd refers (notReferred foreignKey inSchema _ _ isChosen)
  have unblocked : ¬ database.Blocked chosen := by
    rintro ⟨row, _, _, target, doomed, foreignKey, inSchema, _, refers⟩
    exact notReferred foreignKey inSchema row target (chosenOfDoomed target doomed) refers
  have unchanged : ∀ old : Row Table Column Key Data,
      clearRefs schema (doomedRows schema chosen database.rows) old = old :=
    fun old => clearRefs_eq_self fun foreignKey inSchema target member =>
      notReferred foreignKey inSchema old target (chosenOfDoomed target (mem_doomedRows.mp member))
  obtain ⟨next, deleted⟩ :=
    Option.ne_none_iff_exists'.mp (mt Database.deleteWhere_eq_none.mp unblocked)
  refine ⟨next, deleted, fun row => ?_⟩
  rw [Database.mem_deleteWhere deleted]
  simp only [unchanged, ← and_assoc, exists_eq_right]
  refine and_congr_right fun member => ?_
  rw [← Bool.not_eq_true]
  exact not_congr ⟨chosenOfDoomed row, .chosen member⟩

end Delete

/-! ### The update of a reference -/

section Update

variable [DecidableEq Column] {schema : List (ForeignKey Table Column)}
  (chosen : Row Table Column Key Data → Bool) (column : Column) (key : Key)

/-- The row with one reference set, where it is chosen. -/
def setRef (row : Row Table Column Key Data) : Row Table Column Key Data :=
  if chosen row then { row with refs := Function.update row.refs column (some key) } else row

theorem setRef_table (row : Row Table Column Key Data) :
    (setRef chosen column key row).table = row.table := by
  unfold setRef
  split <;> rfl

theorem setRef_key (row : Row Table Column Key Data) :
    (setRef chosen column key row).key = row.key := by
  unfold setRef
  split <;> rfl

theorem setRef_refs_of_ne (row : Row Table Column Key Data) {other : Column}
    (different : other ≠ column) :
    (setRef chosen column key row).refs other = row.refs other := by
  unfold setRef
  split
  · exact Function.update_of_ne different _ _
  · rfl

theorem setRef_refs_self (row : Row Table Column Key Data) :
    (setRef chosen column key row).refs column =
      if chosen row then some key else row.refs column := by
  unfold setRef
  split
  · exact Function.update_self _ _ _
  · rfl

/-- Every chosen row would find its new target. -/
def TargetsFound (schema : List (ForeignKey Table Column))
    (rows : List (Row Table Column Key Data)) : Prop :=
  ∀ foreignKey ∈ schema, foreignKey.column = column →
    ∀ row ∈ rows, chosen row = true → foreignKey.table = row.table →
      ∃ target ∈ rows, target.table = foreignKey.target ∧ target.key = key

theorem refsValid_setRef {rows : List (Row Table Column Key Data)} (valid : RefsValid schema rows)
    (found : TargetsFound chosen column key schema rows) :
    RefsValid schema (rows.map (setRef chosen column key)) := by
  intro foreignKey inSchema updated updatedMember sameTable target refers
  obtain ⟨row, member, rfl⟩ := List.mem_map.mp updatedMember
  rw [setRef_table] at sameTable
  have targetExists :
      ∃ old ∈ rows, old.table = foreignKey.target ∧ old.key = target := by
    by_cases sameColumn : foreignKey.column = column
    · rw [sameColumn, setRef_refs_self] at refers
      split at refers
      · case isTrue isChosen =>
        rw [← Option.some.inj refers]
        exact found foreignKey inSchema sameColumn row member isChosen sameTable
      · exact valid foreignKey inSchema row member sameTable target (sameColumn ▸ refers)
    · rw [setRef_refs_of_ne _ _ _ _ sameColumn] at refers
      exact valid foreignKey inSchema row member sameTable target refers
  obtain ⟨old, oldMember, oldTable, oldKey⟩ := targetExists
  refine ⟨setRef chosen column key old, List.mem_map_of_mem oldMember, ?_, ?_⟩
  · rw [setRef_table, oldTable]
  · rw [setRef_key, oldKey]

variable [DecidableEq Table] [DecidableEq Key]

instance (rows : List (Row Table Column Key Data)) :
    Decidable (TargetsFound chosen column key schema rows) :=
  inferInstanceAs (Decidable (∀ foreignKey ∈ schema, _))

/-- `UPDATE … SET column = key WHERE`: `none` when an updated row would refer to nothing. -/
def Database.setRefWhere (database : Database schema Key Data) :
    Option (Database schema Key Data) :=
  if found : TargetsFound chosen column key schema database.rows then
    some
      { rows := database.rows.map (setRef chosen column key)
        keysDistinct := by
          have sameKeys : (fun row => (row.table, row.key)) ∘ setRef chosen column key =
              fun row : Row Table Column Key Data => (row.table, row.key) := by
            funext row
            exact Prod.ext (setRef_table chosen column key row) (setRef_key chosen column key row)
          rw [List.map_map, sameKeys]
          exact database.keysDistinct
        refsValid := refsValid_setRef chosen column key database.refsValid found }
  else none

variable {chosen column key}

theorem Database.setRefWhere_eq_none {database : Database schema Key Data} :
    database.setRefWhere chosen column key = none ↔
      ¬ TargetsFound chosen column key schema database.rows := by
  rw [setRefWhere, dite_eq_right_iff]
  simp only [reduceCtorEq, imp_false]

theorem Database.rows_setRefWhere {database next : Database schema Key Data}
    (updated : database.setRefWhere chosen column key = some next) :
    next.rows = database.rows.map (setRef chosen column key) := by
  rw [setRefWhere, Option.dite_none_right_eq_some] at updated
  obtain ⟨_, same⟩ := updated
  rw [← Option.some.inj same]

end Update

/-- `UPDATE … SET` of columns without a foreign key. -/
def Database.setData {schema : List (ForeignKey Table Column)} (database : Database schema Key Data)
    (data : Row Table Column Key Data → Data) : Database schema Key Data where
  rows := database.rows.map fun row => { row with data := data row }
  keysDistinct := by
    rw [List.map_map]
    exact database.keysDistinct
  refsValid := by
    intro foreignKey inSchema updated updatedMember sameTable key refers
    obtain ⟨row, member, rfl⟩ := List.mem_map.mp updatedMember
    obtain ⟨target, targetMember, found⟩ :=
      database.refsValid foreignKey inSchema row member sameTable key refers
    exact ⟨_, List.mem_map_of_mem targetMember, found⟩

end LiteHorse.ForeignKeys
