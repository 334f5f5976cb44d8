/-
This file shows that the promotion of skills decides every candidate once at most, in every order of
the statements of the tick and the requests.

The invariant says of a transaction what it has written and what it still knows of the candidates it
has read: a candidate keeps its name and is never deleted, and one that the transaction has written
is pending for all others until the commit. No two versions of rows, committed or not, are pending
under one name, because an insert looks for the name in both.
-/

import LiteHorse.Repositories.SkillPromotion

namespace LiteHorse.Repositories.SkillPromotion

open Python RowVersions Runs

/-! ### The invariant -/

/-- What a transaction has written to a candidate. -/
def Phase.draft (id : UUID) : Phase → Option (Option Candidate)
  | .marked request _ _ row | .audited request _ _ row =>
    if request.candidateId = id then some (some row) else none
  | .ticking rows => (rows.lookup id).map some
  | _ => none

theorem draft_ticking (id other : UUID) (row : Candidate) (rows : List (UUID × Candidate)) :
    (Phase.ticking ((id, row) :: rows)).draft other =
      if other = id then some (some row) else (Phase.ticking rows).draft other := by
  unfold Phase.draft
  by_cases same : other = id
  · simp [same]
  · simp [List.lookup_cons, same, beq_false_of_ne same]

/-- What a transaction has inserted. -/
def Phase.rows : Phase → Inserted
  | .published _ _ official => { officials := [official] }
  | .marked _ _ official _ => { officials := official.toList }
  | .audited request candidate official _ =>
    { officials := official.toList, audit := [request.auditRow candidate official] }
  | _ => {}

/-- The candidate that was read is there, under the same name. -/
def StillThere (committed : UUID → Option Candidate) (request : Request) (candidate : Candidate) :
    Prop :=
  ∃ row, committed request.candidateId = some row ∧
    row.frontmatterName = candidate.frontmatterName

/-- What a transaction knows of the committed candidates. -/
def Phase.Knows (content : UUID → SourceSkill) (committed : UUID → Option Candidate) :
    Phase → Prop
  | .readPending request candidate => StillThere committed request candidate
  | .sourced request candidate source =>
    StillThere committed request candidate ∧ request.decision = .promote ∧
      source = content candidate.sourceSkillId
  | .published request candidate official =>
    StillThere committed request candidate ∧ Publishes content request candidate (some official)
  | .marked request candidate official row | .audited request candidate official row =>
    (∃ before, committed request.candidateId = some before ∧ before.status = .pending ∧
      before.frontmatterName = candidate.frontmatterName ∧
        row = request.decided official before) ∧ Publishes content request candidate official
  | .ticking rows => ∀ id row, rows.lookup id = some row → row.status = .pending ∧
    ∀ before, committed id = some before → before.status = .pending ∧
      before.frontmatterName = row.frontmatterName
  | .idle | .refused _ | .returned _ | .ticked | .aborted => True

section Invariant

variable {Tx : Type}

/-- A version of the row, committed or not, is pending under the name. -/
def Claims (state : State Tx) (id : UUID) (name : String) : Prop :=
  pendingAs name (state.candidates.committed id) = true ∨
    ∃ tx row, (state.phase tx).draft id = some row ∧ pendingAs name row = true

structure Invariant (content : UUID → SourceSkill) (state : State Tx) : Prop where
  guarded : ∀ id, Guarded (state.candidates id) fun tx => (state.phase tx).draft id
  knows : ∀ tx, (state.phase tx).Knows content state.candidates.committed
  inserting : ∀ tx, state.inserting tx = (state.phase tx).rows
  known : ∀ id, state.candidates.committed id ≠ none ∨
    (∃ tx, (state.phase tx).draft id ≠ none) → id ∈ state.ids
  claims : ∀ first second name, Claims state first name → Claims state second name →
    first = second
  rows : ∀ id, (state.served.filter fun served => served.request.candidateId = id).map Served.row =
    (state.candidates.committed id).toList.filter fun candidate => candidate.status ≠ .pending
  right : ∀ served ∈ state.served, served.Right content
  audited : state.inserted.audit = state.served.map fun served =>
    served.request.auditRow served.candidate served.official
  published : state.inserted.officials = state.served.filterMap Served.official

variable {content : UUID → SourceSkill} {state next : State Tx} {tx : Tx} {id : UUID}

theorem invariant_initial : Invariant content (State.initial : State Tx) where
  guarded _ := guarded_still _ fun _ => rfl
  knows _ := trivial
  inserting _ := rfl
  known id there := by
    rcases there with committed | ⟨tx, drafted⟩
    · exact absurd rfl committed
    · exact absurd rfl drafted
  claims first second name ofFirst := by
    rcases ofFirst with committed | ⟨tx, row, drafted, _⟩
    · cases committed
    · cases drafted
  rows _ := rfl
  right _ member := absurd member List.not_mem_nil
  audited := rfl
  published := rfl

/-! ### Phases that go on -/

variable [DecidableEq Tx]

theorem draft_update (state : State Tx) (tx : Tx) (phase : Phase) (id : UUID) :
    (fun other => (Function.update state.phase tx phase other).draft id) =
      Function.update (fun other => (state.phase other).draft id) tx (phase.draft id) := by
  funext other
  exact Function.apply_update (fun _ => Phase.draft id) state.phase tx phase other

theorem cases_phase (property : Tx → Phase → Prop) {phase : Phase} (ofTx : property tx phase)
    (others : ∀ other, other ≠ tx → property other (state.phase other)) (other : Tx) :
    property other (Function.update state.phase tx phase other) := by
  by_cases same : other = tx
  · rw [same, Function.update_self]
    exact ofTx
  · rw [Function.update_of_ne same]
    exact others other same

/-- Who claims a name after a transaction has gone on with the same drafts claimed it before. -/
theorem claims_of_sameDraft {phase : Phase}
    (sameDraft : ∀ id, phase.draft id = (state.phase tx).draft id) {name : String}
    (claims : Claims { state with phase := Function.update state.phase tx phase } id name) :
    Claims state id name := by
  rcases claims with committed | ⟨other, row, drafted, isPending⟩
  · exact Or.inl committed
  · refine Or.inr ⟨other, row, ?_, isPending⟩
    by_cases same : other = tx
    · subst same
      simpa [sameDraft] using drafted
    · simpa [same] using drafted

/-- A transaction goes on and writes no candidate. -/
theorem Invariant.go (invariant : Invariant content state) (tx : Tx) {phase : Phase}
    {rows : Inserted}
    (sameDraft : ∀ id, phase.draft id = (state.phase tx).draft id)
    (knows : phase.Knows content state.candidates.committed) (isRows : rows = phase.rows) :
    Invariant content { state with
      phase := Function.update state.phase tx phase
      inserting := Function.update state.inserting tx rows } where
  guarded id := by
    show Guarded (state.candidates id) fun other =>
      (Function.update state.phase tx phase other).draft id
    rw [draft_update]
    exact (invariant.guarded id).move (sameDraft id)
  knows := cases_phase (fun _ phase => phase.Knows content state.candidates.committed) knows
    fun other _ => invariant.knows other
  inserting other := by
    by_cases same : other = tx
    · simp [same, isRows]
    · simpa [same] using invariant.inserting other
  known id there := by
    refine invariant.known id (there.imp_right ?_)
    rintro ⟨other, drafted⟩
    refine ⟨other, ?_⟩
    by_cases same : other = tx
    · subst same
      simpa [sameDraft] using drafted
    · simpa [same] using drafted
  claims first second name ofFirst ofSecond :=
    invariant.claims first second name (claims_of_sameDraft sameDraft ofFirst)
      (claims_of_sameDraft sameDraft ofSecond)
  rows := invariant.rows
  right := invariant.right
  audited := invariant.audited
  published := invariant.published

theorem Invariant.move (invariant : Invariant content state) {phase : Phase}
    (sameDraft : ∀ id, phase.draft id = (state.phase tx).draft id)
    (knows : phase.Knows content state.candidates.committed)
    (sameRows : phase.rows = (state.phase tx).rows) : Invariant content (state.move tx phase) := by
  have gone := invariant.go tx sameDraft knows
    ((invariant.inserting tx).trans sameRows.symm)
  rwa [Function.update_eq_self] at gone

/-! ### Writing a candidate -/

/-- What a transaction sees of a row is its draft, or else what is committed. -/
theorem view_cases (invariant : Invariant content state) (tx : Tx) (id : UUID) :
    (state.phase tx).draft id = some (state.candidates.view tx id) ∨
      ((state.phase tx).draft id = none ∧
        state.candidates.view tx id = state.candidates.committed id) := by
  have guarded := invariant.guarded id
  cases hasDraft : (state.phase tx).draft id with
  | some row =>
    have isDraft := (guarded tx row).mp hasDraft
    have isView : state.candidates.view tx id = row := by
      unfold Table.view Cell.view
      rw [isDraft]
      exact if_pos rfl
    exact Or.inl (congrArg some isView.symm)
  | none => exact Or.inr ⟨rfl, Table.view_of_not_held (guarded.not_held hasDraft)⟩

theorem Invariant.write (invariant : Invariant content state)
    (isFree : (state.candidates id).freeFor tx = true) {row : Candidate} {phase : Phase}
    {ids : List UUID} (moreIds : ∀ other ∈ state.ids, other ∈ ids) (isId : id ∈ ids)
    (drafts : ∀ other, phase.draft other =
      if other = id then some (some row) else (state.phase tx).draft other)
    (knows : phase.Knows content state.candidates.committed)
    (sameRows : phase.rows = (state.phase tx).rows)
    (claims : ∀ name, pendingAs name (some row) = true →
      ∀ other, Claims state other name → other = id) :
    Invariant content { state.writeRow tx id row phase with ids } := by
  have committed : (state.candidates.write tx id (some row)).committed =
      state.candidates.committed := Table.committed_write
  have claimsBefore : ∀ {other : UUID} {name : String},
      Claims { state.writeRow tx id row phase with ids } other name →
        Claims state other name ∨ (other = id ∧ pendingAs name (some row) = true) := by
    rintro other name (isCommitted | ⟨holder, draft, drafted, isPending⟩)
    · exact Or.inl (Or.inl (by rwa [← committed]))
    · change (Function.update state.phase tx phase holder).draft other = some draft at drafted
      by_cases same : holder = tx
      · rw [same, Function.update_self, drafts] at drafted
        split at drafted
        next isId =>
          cases drafted
          exact Or.inr ⟨isId, isPending⟩
        next => exact Or.inl (Or.inr ⟨tx, draft, drafted, isPending⟩)
      · rw [Function.update_of_ne same] at drafted
        exact Or.inl (Or.inr ⟨holder, draft, drafted, isPending⟩)
  exact {
    guarded := fun other => by
      show Guarded (Function.update state.candidates id _ other) fun holder =>
        (Function.update state.phase tx phase holder).draft other
      rw [draft_update, drafts]
      by_cases same : other = id
      · subst same
        rw [Function.update_self, if_pos rfl]
        exact (invariant.guarded other).write isFree (some row)
      · rw [Function.update_of_ne same, if_neg same]
        exact (invariant.guarded other).move rfl
    knows := by
      show ∀ holder, (Function.update state.phase tx phase holder).Knows content
        (state.candidates.write tx id (some row)).committed
      rw [committed]
      exact cases_phase (fun _ phase => phase.Knows content state.candidates.committed) knows
        fun other _ => invariant.knows other
    inserting := fun other => by
      show state.inserting other = (Function.update state.phase tx phase other).rows
      by_cases same : other = tx
      · rw [same, Function.update_self, sameRows, invariant.inserting]
      · rw [Function.update_of_ne same, invariant.inserting]
    known := fun other there => by
      change (state.candidates.write tx id (some row)).committed other ≠ none ∨
        (∃ holder, (Function.update state.phase tx phase holder).draft other ≠ none) at there
      rw [committed] at there
      rcases there with isCommitted | ⟨holder, drafted⟩
      · exact moreIds other (invariant.known other (Or.inl isCommitted))
      · by_cases same : holder = tx
        · rw [same, Function.update_self, drafts] at drafted
          split at drafted
          next isOther => exact isOther ▸ isId
          next => exact moreIds other (invariant.known other (Or.inr ⟨tx, drafted⟩))
        · rw [Function.update_of_ne same] at drafted
          exact moreIds other (invariant.known other (Or.inr ⟨holder, drafted⟩))
    claims := fun first second name ofFirst ofSecond => by
      rcases claimsBefore ofFirst with firstBefore | ⟨rfl, isPending⟩
      · rcases claimsBefore ofSecond with secondBefore | ⟨rfl, isPending⟩
        · exact invariant.claims first second name firstBefore secondBefore
        · exact claims name isPending first firstBefore
      · rcases claimsBefore ofSecond with secondBefore | ⟨rfl, _⟩
        · exact (claims name isPending second secondBefore).symm
        · rfl
    rows := fun other => by
      show _ = ((state.candidates.write tx id (some row)).committed other).toList.filter _
      rw [committed]
      exact invariant.rows other
    right := invariant.right
    audited := invariant.audited
    published := invariant.published }

/-! ### The end of a transaction -/

theorem committed_finish (invariant : Invariant content state) (tx : Tx) (id : UUID) :
    (state.candidates.commit tx).committed id =
      ((state.phase tx).draft id).getD (state.candidates.committed id) := by
  rw [Table.committed_commit]
  rcases view_cases invariant tx id with drafted | ⟨none, isView⟩
  · rw [drafted]
    rfl
  · rw [none, isView]
    rfl

theorem decided_name (request : Request) (official : Option OfficialSkill)
    (candidate : Candidate) :
    (request.decided official candidate).frontmatterName = candidate.frontmatterName := by
  unfold Request.decided
  split
  · rfl
  · rfl

theorem decided_status (request : Request) (official : Option OfficialSkill)
    (candidate : Candidate) : (request.decided official candidate).status ≠ .pending := by
  unfold Request.decided
  split
  · exact Status.noConfusion
  · exact Status.noConfusion

/-- What a transaction has written to a row leaves the name of the row alone, and the row was
pending if it was there. -/
def Decides (committed drafted : Option Candidate) : Prop :=
  ∃ row, drafted = some row ∧ ∀ before, committed = some before →
    before.status = .pending ∧ row.frontmatterName = before.frontmatterName

theorem decides_of_marked {committed : UUID → Option Candidate} {request : Request}
    {candidate row : Candidate} {official : Option OfficialSkill}
    (knows : ∃ before, committed request.candidateId = some before ∧ before.status = .pending ∧
      before.frontmatterName = candidate.frontmatterName ∧ row = request.decided official before)
    {drafted : Option Candidate}
    (isDraft : (if request.candidateId = id then some (some row) else none) = some drafted) :
    Decides (committed id) drafted := by
  split at isDraft
  next isId =>
    cases isDraft
    obtain ⟨before, isBefore, isPending, _, isRow⟩ := knows
    refine ⟨row, rfl, fun there isThere => ?_⟩
    rw [← isId, isBefore] at isThere
    cases isThere
    exact ⟨isPending, isRow ▸ decided_name request official before⟩
  next => cases isDraft

theorem Phase.Knows.draft {committed : UUID → Option Candidate} {phase : Phase}
    (knows : phase.Knows content committed) {drafted : Option Candidate}
    (isDraft : phase.draft id = some drafted) : Decides (committed id) drafted := by
  cases phase with
  | marked => exact decides_of_marked knows.1 isDraft
  | audited => exact decides_of_marked knows.1 isDraft
  | ticking rows =>
    obtain ⟨row, isRow, rfl⟩ := Option.map_eq_some_iff.mp isDraft
    refine ⟨row, rfl, fun before isBefore => ?_⟩
    have ⟨isPending, sameName⟩ := (knows id row isRow).2 before isBefore
    exact ⟨isPending, sameName.symm⟩
  | _ => cases isDraft

/-- What the others know of a candidate stays so where one of them has written it itself and no
candidate that is there loses its name. -/
theorem Phase.Knows.after {before after : UUID → Option Candidate} {phase : Phase}
    (knows : phase.Knows content before)
    (names : ∀ id row, before id = some row →
      ∃ later, after id = some later ∧ later.frontmatterName = row.frontmatterName)
    (own : ∀ id, phase.draft id ≠ none → after id = before id) : phase.Knows content after := by
  have stillThere : ∀ {request : Request} {candidate : Candidate},
      StillThere before request candidate → StillThere after request candidate := by
    rintro request candidate ⟨row, isRow, sameName⟩
    obtain ⟨later, isLater, laterName⟩ := names _ row isRow
    exact ⟨later, isLater, laterName.trans sameName⟩
  cases phase with
  | readPending => exact stillThere knows
  | sourced => exact ⟨stillThere knows.1, knows.2⟩
  | published => exact ⟨stillThere knows.1, knows.2⟩
  | marked request candidate official row =>
    have same := own request.candidateId fun noDraft => by cases (if_pos rfl).symm.trans noDraft
    obtain ⟨⟨there, isThere, isPending⟩, publishes⟩ := knows
    exact ⟨⟨there, same.trans isThere, isPending⟩, publishes⟩
  | audited request candidate official row =>
    have same := own request.candidateId fun noDraft => by cases (if_pos rfl).symm.trans noDraft
    obtain ⟨⟨there, isThere, isPending⟩, publishes⟩ := knows
    exact ⟨⟨there, same.trans isThere, isPending⟩, publishes⟩
  | ticking rows =>
    intro id row isRow
    have same := own id fun noDraft => by
      cases (congrArg (Option.map some) isRow).symm.trans noDraft
    rw [same]
    exact knows id row isRow
  | _ => trivial

/-- A transaction ends, and its drafts are committed or are not. -/
theorem Invariant.release (invariant : Invariant content state) (phase : Phase)
    (noDraft : ∀ id, phase.draft id = none) (knows : ∀ committed, phase.Knows content committed)
    (noRows : phase.rows = {}) {candidates : Table Tx UUID (Option Candidate)}
    {inserted : Inserted} {served : List Served}
    (guarded : ∀ id, Guarded (candidates id)
      (Function.update (fun other => (state.phase other).draft id) tx none))
    (committed : ∀ id, candidates.committed id = state.candidates.committed id ∨
      (state.phase tx).draft id = some (candidates.committed id))
    (rows : ∀ id, (served.filter fun served => served.request.candidateId = id).map Served.row =
      (candidates.committed id).toList.filter fun candidate => candidate.status ≠ .pending)
    (right : ∀ one ∈ served, one.Right content)
    (audited : inserted.audit = served.map fun served =>
      served.request.auditRow served.candidate served.official)
    (published : inserted.officials = served.filterMap Served.official) :
    Invariant content { state with
      candidates
      phase := Function.update state.phase tx phase
      inserting := Function.update state.inserting tx {}
      inserted
      served } := by
  have drafts : ∀ {other : Tx} {id : UUID} {row : Option Candidate},
      (Function.update state.phase tx phase other).draft id = some row →
        other ≠ tx ∧ (state.phase other).draft id = some row := by
    intro other id row drafted
    by_cases same : other = tx
    · rw [same, Function.update_self, noDraft] at drafted
      cases drafted
    · rw [Function.update_of_ne same] at drafted
      exact ⟨same, drafted⟩
  have claimed : ∀ {id : UUID} {name : String}, Claims { state with
      candidates
      phase := Function.update state.phase tx phase
      inserting := Function.update state.inserting tx {}
      inserted
      served } id name → Claims state id name := by
    rintro id name (isPending | ⟨other, row, drafted, isPending⟩)
    · change pendingAs name (candidates.committed id) = true at isPending
      rcases committed id with same | drafted
      · exact Or.inl (same ▸ isPending)
      · exact Or.inr ⟨tx, candidates.committed id, drafted, isPending⟩
    · exact Or.inr ⟨other, row, (drafts drafted).2, isPending⟩
  exact {
    guarded := fun id => by
      show Guarded (candidates id) fun other =>
        (Function.update state.phase tx phase other).draft id
      rw [draft_update, noDraft]
      exact guarded id
    knows := by
      refine cases_phase (fun _ phase => phase.Knows content candidates.committed)
        (knows candidates.committed) fun other different => ?_
      refine (invariant.knows other).after (fun id row isRow => ?_) fun id isOther => ?_
      · rcases committed id with same | drafted
        · exact ⟨row, same.trans isRow, rfl⟩
        · obtain ⟨later, isLater, kept⟩ := (invariant.knows tx).draft drafted
          exact ⟨later, isLater, (kept row isRow).2⟩
      · rcases committed id with same | drafted
        · exact same
        · obtain ⟨row, isRow⟩ := Option.ne_none_iff_exists'.mp isOther
          have ofTx := (invariant.guarded id tx _).mp drafted
          rw [(invariant.guarded id other row).mp isRow] at ofTx
          cases ofTx
          exact absurd rfl different
    inserting := fun other => by
      show Function.update state.inserting tx {} other =
        (Function.update state.phase tx phase other).rows
      by_cases same : other = tx
      · rw [same, Function.update_self, Function.update_self, noRows]
      · rw [Function.update_of_ne same, Function.update_of_ne same, invariant.inserting]
    known := fun id there => by
      refine invariant.known id ?_
      rcases there with isCommitted | ⟨other, drafted⟩
      · rcases committed id with same | drafted
        · exact Or.inl (same ▸ isCommitted)
        · exact Or.inr ⟨tx, fun none => by cases none.symm.trans drafted⟩
      · obtain ⟨row, isRow⟩ := Option.ne_none_iff_exists'.mp drafted
        exact Or.inr ⟨other, fun none => by cases none.symm.trans (drafts isRow).2⟩
    claims := fun first second name ofFirst ofSecond =>
      invariant.claims first second name (claimed ofFirst) (claimed ofSecond)
    rows := rows
    right := right
    audited := audited
    published := published }

theorem Invariant.rollback (invariant : Invariant content state) (tx : Tx) :
    Invariant content (state.rollback tx) := by
  refine invariant.release .aborted (fun _ => rfl) (fun _ => trivial) rfl
    (fun id => (invariant.guarded id).rollback tx) (fun id => Or.inl Cell.committed_rollback)
    (fun id => ?_) invariant.right invariant.audited invariant.published
  have same : (state.candidates.rollback tx).committed id = state.candidates.committed id :=
    Cell.committed_rollback
  rw [same]
  exact invariant.rows id

/-- A commit decides the rows that the transaction has written as decided. -/
theorem Invariant.finish (invariant : Invariant content state) (phase : Phase)
    (noDraft : ∀ id, phase.draft id = none) (knows : ∀ committed, phase.Knows content committed)
    (noRows : phase.rows = {}) {served : List Served}
    (rows : ∀ id, (served.filter fun served => served.request.candidateId = id).map Served.row =
      (((state.phase tx).draft id).getD none).toList.filter fun candidate =>
        candidate.status ≠ .pending)
    (right : ∀ one ∈ served, one.Right content)
    (audited : (state.phase tx).rows.audit = served.map fun served =>
      served.request.auditRow served.candidate served.official)
    (published : (state.phase tx).rows.officials = served.filterMap Served.official) :
    Invariant content (state.finish tx phase served) := by
  refine invariant.release phase noDraft knows noRows (fun id => (invariant.guarded id).commit tx)
    (fun id => ?_) (fun id => ?_) ?_ ?_ ?_
  · rw [committed_finish invariant]
    cases (state.phase tx).draft id with
    | none => exact Or.inl rfl
    | some row => exact Or.inr rfl
  · rw [committed_finish invariant, List.filter_append, List.map_append, rows,
      invariant.rows id]
    cases isDraft : (state.phase tx).draft id with
    | none => exact List.append_nil _
    | some drafted =>
      obtain ⟨row, rfl, kept⟩ := (invariant.knows tx).draft isDraft
      cases isBefore : state.candidates.committed id with
      | none => rfl
      | some before =>
        have undecided : (some before).toList.filter
            (fun candidate => candidate.status ≠ .pending) = [] :=
          List.filter_cons_of_neg (by simp [(kept before isBefore).1])
        rw [undecided]
        rfl
  · intro one member
    rcases List.mem_append.mp member with before | new
    · exact invariant.right one before
    · exact right one new
  · show state.inserted.audit ++ (state.inserting tx).audit = _
    rw [invariant.audited, invariant.inserting, audited, List.map_append]
  · show state.inserted.officials ++ (state.inserting tx).officials = _
    rw [invariant.published, invariant.inserting, published, List.filterMap_append]

/-! ### Steps -/

theorem begin_kept (invariant : Invariant content state) {request : Request}
    (taken : begin state tx request = some next) : Invariant content next := by
  unfold begin at taken
  split at taken
  next isIdle =>
    have sameDraft : ∀ id, (state.phase tx).draft id = none := fun id => by rw [isIdle]; rfl
    have sameRows : (state.phase tx).rows = {} := by rw [isIdle]; rfl
    split at taken
    next =>
      cases taken
      exact invariant.move (fun id => (sameDraft id).symm) trivial sameRows.symm
    next candidate isView =>
      split at taken
      next =>
        cases taken
        refine invariant.move (fun id => (sameDraft id).symm) ⟨candidate, ?_, rfl⟩ sameRows.symm
        rcases view_cases invariant tx request.candidateId with drafted | ⟨_, isCommitted⟩
        · cases (sameDraft _).symm.trans drafted
        · exact isCommitted.symm.trans isView
      next =>
        cases taken
        exact invariant.move (fun id => (sameDraft id).symm) trivial sameRows.symm
  next => cases taken

theorem readSource_kept (invariant : Invariant content state) {present : Bool}
    (taken : readSource content state tx present = some next) : Invariant content next := by
  have knows := invariant.knows tx
  unfold readSource at taken
  split at taken
  next request candidate isReading =>
    rw [isReading] at knows
    split at taken
    next isPromote =>
      split at taken
      next =>
        cases taken
        refine invariant.move (fun id => ?_) ⟨knows, isPromote, rfl⟩ ?_
        · rw [isReading]
          rfl
        · rw [isReading]
          rfl
      next =>
        cases taken
        refine invariant.move (fun id => ?_) trivial ?_
        · rw [isReading]
          rfl
        · rw [isReading]
          rfl
    next => cases taken
  next => cases taken

theorem publish_kept (invariant : Invariant content state) {officialId : UUID} {version : Int}
    (taken : publish state tx officialId version = some next) : Invariant content next := by
  have knows := invariant.knows tx
  unfold publish at taken
  split at taken
  next request candidate source isSourced =>
    rw [isSourced] at knows
    obtain ⟨isThere, isPromote, isSource⟩ := knows
    cases taken
    refine invariant.go tx (fun id => ?_) ⟨isThere, ?_⟩ ?_
    · rw [isSourced]
      rfl
    · unfold Publishes
      rw [isPromote]
      exact ⟨officialId, version, by rw [isSource]⟩
    · rw [invariant.inserting, isSourced]
      rfl
  next => cases taken

/-- What is known where a request is about to write. -/
theorem deciding_cases {committed : UUID → Option Candidate} {phase : Phase} {request : Request}
    {candidate : Candidate} {official : Option OfficialSkill}
    (knows : phase.Knows content committed)
    (deciding : phase.deciding = some (request, candidate, official)) :
    StillThere committed request candidate ∧ Publishes content request candidate official ∧
      phase.rows = { officials := official.toList } ∧ ∀ id, phase.draft id = none := by
  unfold Phase.deciding at deciding
  split at deciding
  next =>
    split at deciding
    next => cases deciding
    next isReject =>
      cases deciding
      refine ⟨knows, ?_, rfl, fun _ => rfl⟩
      unfold Publishes
      rw [isReject]
  next =>
    cases deciding
    exact ⟨knows.1, knows.2, rfl, fun _ => rfl⟩
  next => cases deciding

theorem mark_kept (invariant : Invariant content state) (taken : mark state tx = some next) :
    Invariant content next := by
  unfold mark at taken
  split at taken
  next request candidate official deciding =>
    obtain ⟨⟨there, isThere, sameName⟩, publishes, isRows, noDraft⟩ :=
      deciding_cases (invariant.knows tx) deciding
    split at taken
    next isFree =>
      split at taken
      next current isView =>
        split at taken
        next isPending =>
          cases taken
          have isCurrent : current = there := by
            rcases view_cases invariant tx request.candidateId with drafted | ⟨_, isCommitted⟩
            · cases (noDraft _).symm.trans drafted
            · rw [isCommitted, isThere] at isView
              exact (Option.some.inj isView).symm
          subst isCurrent
          refine invariant.write isFree (fun _ member => member)
            (invariant.known _ (Or.inl fun none => by cases isThere.symm.trans none))
            (fun other => ?_) ⟨⟨current, isThere, isPending, sameName, rfl⟩, publishes⟩
            isRows.symm ?_
          · rw [noDraft]
            exact if_congr eq_comm rfl rfl
          · intro name claims
            exact absurd (pendingAs_iff.mp claims).1 (decided_status request official current)
        next =>
          cases taken
          exact invariant.rollback tx
      next =>
        cases taken
        exact invariant.rollback tx
    next => cases taken
  next => cases taken

theorem audit_kept (invariant : Invariant content state) (taken : audit state tx = some next) :
    Invariant content next := by
  have knows := invariant.knows tx
  unfold audit at taken
  split at taken
  next request candidate official row isMarked =>
    rw [isMarked] at knows
    cases taken
    refine invariant.go tx (fun id => ?_) knows ?_
    · rw [isMarked]
      rfl
    · rw [invariant.inserting, isMarked]
      show Inserted.mk (official.toList ++ []) _ = _
      rw [List.append_nil]
      rfl
  next => cases taken

theorem commit_kept (invariant : Invariant content state) (taken : commit state tx = some next) :
    Invariant content next := by
  have knows := invariant.knows tx
  unfold commit at taken
  split at taken
  next request candidate official row isAudited =>
    rw [isAudited] at knows
    obtain ⟨⟨before, _, isPending, sameName, isRow⟩, publishes⟩ := knows
    cases taken
    refine invariant.finish (.returned row) (fun _ => rfl) (fun _ => trivial) rfl (fun id => ?_)
      ?_ ?_ ?_
    · rw [isAudited]
      show _ = (Option.getD (if request.candidateId = id then some (some row) else none)
        none).toList.filter _
      by_cases same : request.candidateId = id
      · simp [same, isRow, decided_status]
      · simp [same]
    · intro one member
      cases List.mem_singleton.mp member
      exact ⟨⟨before, isPending, sameName, isRow⟩, publishes⟩
    · rw [isAudited]
      rfl
    · rw [isAudited]
      cases official with
      | none => rfl
      | some skill => rfl
  next => cases taken

theorem startTick_kept (invariant : Invariant content state)
    (taken : startTick state tx = some next) : Invariant content next := by
  unfold startTick at taken
  split at taken
  next isIdle =>
    cases taken
    refine invariant.move (fun id => ?_) (fun _ _ isRow => by cases isRow) ?_
    · rw [isIdle]
      rfl
    · rw [isIdle]
      rfl
  next => cases taken

theorem refresh_kept (invariant : Invariant content state) {agg : CandidateAggregate}
    (taken : refresh state tx id agg = some next) : Invariant content next := by
  have knows := invariant.knows tx
  unfold refresh at taken
  split at taken
  next rows candidate isTicking isView =>
    split at taken
    next allowed =>
      obtain ⟨isFree, isPending⟩ := allowed
      cases taken
      rw [isTicking] at knows
      have ⟨status, name⟩ := pendingAs_iff.mp isPending
      have seen := view_cases invariant tx id
      rw [isView, isTicking] at seen
      have isHere : Claims state id candidate.frontmatterName := by
        have claims : pendingAs candidate.frontmatterName (some candidate) = true :=
          name ▸ isPending
        rcases seen with drafted | ⟨_, isCommitted⟩
        · exact Or.inr ⟨tx, some candidate, by rw [isTicking]; exact drafted, claims⟩
        · exact Or.inl (isCommitted ▸ claims)
      refine invariant.write isFree (fun _ member => member) ?_ (fun other => ?_) ?_ ?_ ?_
      · refine invariant.known id ?_
        rcases seen with drafted | ⟨_, isCommitted⟩
        · exact Or.inr ⟨tx, fun none => by rw [isTicking] at none; cases drafted.symm.trans none⟩
        · exact Or.inl fun none => by cases isCommitted.trans none
      · rw [isTicking]
        exact draft_ticking id other (agg.refreshed candidate) rows
      · intro other row isRow
        rw [List.lookup_cons] at isRow
        split at isRow
        next isOther =>
          cases isRow
          rw [eq_of_beq isOther]
          refine ⟨status, fun before isBefore => ?_⟩
          rcases seen with drafted | ⟨_, isCommitted⟩
          · exact (knows id candidate (by simpa [Phase.draft] using drafted)).2 before isBefore
          · rw [isBefore] at isCommitted
            cases isCommitted
            exact ⟨status, rfl⟩
        next => exact knows other row isRow
      · rw [isTicking]
        rfl
      · intro other claims another ofAnother
        have sameName : candidate.frontmatterName = other := (pendingAs_iff.mp claims).2
        exact invariant.claims another id other ofAnother (sameName ▸ isHere)
    next => cases taken
  next => cases taken

omit [DecidableEq Tx] in
/-- A row that claims a name has it in the index. -/
theorem indexed_of_claims (invariant : Invariant content state) {name : String}
    (claims : Claims state id name) : indexed (state.candidates id) name = true := by
  unfold indexed
  rcases claims with isPending | ⟨other, row, drafted, isPending⟩
  · exact Bool.or_eq_true_iff.mpr (Or.inl isPending)
  · rw [(invariant.guarded id other row).mp drafted]
    exact Bool.or_eq_true_iff.mpr (Or.inr isPending)

theorem insert_kept (invariant : Invariant content state) {agg : CandidateAggregate}
    (taken : insert state tx id agg = some next) : Invariant content next := by
  have knows := invariant.knows tx
  unfold insert at taken
  split at taken
  next rows isTicking =>
    split at taken
    next allowed =>
      obtain ⟨isNew, notIndexed⟩ := allowed
      cases taken
      rw [isTicking] at knows
      have noCommitted : state.candidates.committed id = none := by
        by_contra isThere
        exact isNew (invariant.known id (Or.inl isThere))
      have noDraft : ∀ other, (state.phase other).draft id = none := by
        intro other
        by_contra isThere
        exact isNew (invariant.known id (Or.inr ⟨other, isThere⟩))
      have isFree : (state.candidates id).freeFor tx = true := by
        unfold Cell.freeFor
        cases isDraft : (state.candidates id).draft with
        | none => rfl
        | some draft =>
          cases (noDraft draft.1).symm.trans ((invariant.guarded id draft.1 draft.2).mpr isDraft)
      refine invariant.write isFree (fun _ member => List.mem_cons_of_mem id member)
        List.mem_cons_self (fun other => ?_) ?_ ?_ ?_
      · rw [isTicking]
        exact draft_ticking id other agg.inserted rows
      · intro other row isRow
        rw [List.lookup_cons] at isRow
        split at isRow
        next isOther =>
          cases isRow
          rw [eq_of_beq isOther]
          exact ⟨rfl, fun before isBefore => by cases noCommitted.symm.trans isBefore⟩
        next => exact knows other row isRow
      · rw [isTicking]
        rfl
      · intro name claims other ofOther
        have isName : agg.frontmatterName = name := (pendingAs_iff.mp claims).2
        have isKnown : other ∈ state.ids := by
          refine invariant.known other ?_
          rcases ofOther with isPending | ⟨holder, row, drafted, _⟩
          · exact Or.inl fun none => by rw [none] at isPending; cases isPending
          · exact Or.inr ⟨holder, fun none => by cases none.symm.trans drafted⟩
        have free := List.all_eq_true.mp notIndexed other isKnown
        rw [isName, indexed_of_claims invariant ofOther] at free
        cases free
    next => cases taken
  next => cases taken

theorem commitTick_kept (invariant : Invariant content state)
    (taken : commitTick state tx = some next) : Invariant content next := by
  have knows := invariant.knows tx
  unfold commitTick at taken
  split at taken
  next rows isTicking =>
    rw [isTicking] at knows
    cases taken
    refine invariant.finish .ticked (fun _ => rfl) (fun _ => trivial) rfl (fun id => ?_)
      (fun _ member => absurd member List.not_mem_nil) ?_ ?_
    · rw [isTicking]
      show [] = (Option.getD (Option.map some (rows.lookup id)) none).toList.filter _
      cases isRow : rows.lookup id with
      | none => rfl
      | some row => simp [(knows id row isRow).1]
    · rw [isTicking]
      rfl
    · rw [isTicking]
      rfl
  next => cases taken

theorem abort_kept (invariant : Invariant content state) (taken : abort state tx = some next) :
    Invariant content next := by
  unfold abort at taken
  split at taken
  · cases taken
  · cases taken
  · cases taken
  · cases taken
  · cases taken
  · cases taken
    exact invariant.rollback tx

theorem step_kept (invariant : Invariant content state) {event : Event Tx}
    (taken : step content state event = some next) : Invariant content next := by
  cases event with
  | begin => exact begin_kept invariant taken
  | readSource => exact readSource_kept invariant taken
  | publish => exact publish_kept invariant taken
  | mark => exact mark_kept invariant taken
  | audit => exact audit_kept invariant taken
  | commit => exact commit_kept invariant taken
  | startTick => exact startTick_kept invariant taken
  | refresh => exact refresh_kept invariant taken
  | insert => exact insert_kept invariant taken
  | commitTick => exact commitTick_kept invariant taken
  | abort => exact abort_kept invariant taken

/-- In every run a candidate that has been decided is what the one request which decided it has
written, and the audit and the official skills are those of these requests and no others. -/
theorem decided_once (content : UUID → SourceSkill) (events : List (Event Tx)) :
    Always (step content) (DecidedOnce content) State.initial events := by
  have always : Always (step content) (Invariant content) State.initial events :=
    always_invariant (step content) (fun _ _ _ kept taken => step_kept kept taken)
      invariant_initial
  refine always.mono (step content) fun state kept => ?_
  exact {
    rows := kept.rows
    right := kept.right
    audited := kept.audited
    published := kept.published
    onePending := fun first second name ofFirst ofSecond =>
      kept.claims first second name (Or.inl ofFirst) (Or.inl ofSecond) }

end Invariant

end LiteHorse.Repositories.SkillPromotion
