/-
This file models the pass of the curator over the skills of an agent: it moves skills between
states by their idle time, and proposes to merge the ones that are alike.

The pass reads the rows of the user, whatever agent they belong to, and so does the resolver of
the config that a turn reads. `scopedToAgent_iff` says when both nevertheless keep to the rows of
one agent. What the embedding provider and the reviewer answer are parameters.
-/

import LiteHorse.Web.EffectiveCache

namespace LiteHorse.Worker.Curator

open Layers Python Repositories Sorting Versions ViewCaches Web

/-! ### The rows -/

inductive CuratorState where
  | active
  | stale
  | archived
  | pinned
  deriving DecidableEq

/-- A user-scope row of the skills, with the columns the curator reads. Times are in
microseconds. -/
structure SkillRow where
  row : UserRow Skill
  curatorState : CuratorState
  createdAt : Option Int
  lastUsedAt : Option Int
  successCount : Int

def SkillRow.slug (skill : SkillRow) : String := skill.row.row.name

def SkillRow.isCurrent (skill : SkillRow) : Bool := skill.row.row.isCurrent

def SkillRow.agentId (skill : SkillRow) : Option UUID := skill.row.agentId

def SkillRow.body (skill : SkillRow) : String := skill.row.row.content.body

/-- The rows of a user. The unique index allows one current row for a slug. -/
structure SkillTable where
  rows : List SkillRow
  oneCurrent : ((rows.filter SkillRow.isCurrent).map SkillRow.slug).Nodup

/-- `SkillRepo.list_user` -/
def listUser (rows : List SkillRow) : List SkillRow :=
  sortedBy SkillRow.slug (rows.filter SkillRow.isCurrent)

/-! ### State transitions -/

/-- `timedelta(days=days)` -/
def days (number : Int) : Int := number * 86400000000

def curatorStaleAfterDays : Int := 30

def curatorArchiveAfterDays : Int := 90

/-- `_target_state` -/
def targetState (now : Int) (skill : SkillRow) : CuratorState :=
  if skill.curatorState = .pinned then .pinned
  else
    match skill.lastUsedAt.or skill.createdAt with
    | none => skill.curatorState
    | some last =>
      let idle := now - last
      if days curatorArchiveAfterDays ≤ idle ∧ skill.successCount = 0 then .archived
      else if days curatorStaleAfterDays ≤ idle then .stale
      else .active

/-- The UPDATE of `update_curator_state`: every current row of the user with the slug. -/
def updateCuratorState (rows : List SkillRow) (slug : String) (state : CuratorState) :
    List SkillRow :=
  rows.map fun row =>
    if row.isCurrent && row.slug = slug then { row with curatorState := state } else row

/-- The body of the loop over the skills. -/
def transition (now : Int) (rows : List SkillRow) (skill : SkillRow) : List SkillRow :=
  if targetState now skill = skill.curatorState then rows
  else updateCuratorState rows skill.slug (targetState now skill)

def transitions (now : Int) (rows : List SkillRow) : List SkillRow :=
  (listUser rows).foldl (transition now) rows

/-- A loaded skill after the loop: the session keeps it in step with the updates. -/
def moved (now : Int) (skill : SkillRow) : SkillRow :=
  { skill with curatorState := targetState now skill }

/-! ### Consolidation -/

structure Pair (Score : Type) where
  a : SkillRow
  b : SkillRow
  similarity : Score

/-- What the reviewer's answer says, where there is one that parses. -/
structure Decision where
  merge : Bool
  /-- None where it is missing or empty. -/
  slug : Option String
  body : String
  reason : String

structure SkillProposal (Score : Type) where
  agentId : UUID
  skillSlug : String
  body : String
  similarity : Score
  sourceSlugs : String × String
  reason : String

def curatorMaxBodyChars : Nat := 1500

/-- `text[:size]` -/
def truncated (size : Nat) (text : String) : String := String.ofList (text.toList.take size)

section Consolidation

variable {Component Score : Type} [LinearOrder Score]

/-- The side agents of a curator, and its settings. -/
structure Setup (Component Score : Type) where
  /-- The embeddings of the bodies, or none where there is no provider or it fails. -/
  embedBatch : List String → Option (List (List Component))
  cosine : List Component → List Component → Score
  consolidateThreshold : Score
  review : Pair Score → Option Decision
  maxPairs : Nat

variable (setup : Setup Component Score)

/-- The pairs of a skill with a later one that are alike. -/
def pairsWith (skill : SkillRow × List Component) (later : List (SkillRow × List Component)) :
    List (Pair Score) :=
  if skill.2.isEmpty then []
  else later.filterMap fun other =>
    let similarity := setup.cosine skill.2 other.2
    if !other.2.isEmpty && setup.consolidateThreshold ≤ similarity then
      some { a := skill.1, b := other.1, similarity }
    else none

/-- The two loops over the skills. -/
def allPairs : List (SkillRow × List Component) → List (Pair Score)
  | [] => []
  | skill :: later => pairsWith setup skill later ++ allPairs later

/-- `_find_consolidation_pairs`, the most similar pairs first. -/
def findConsolidationPairs (skills : List SkillRow) : List (Pair Score) :=
  if skills.length < 2 then []
  else
    match setup.embedBatch (skills.map fun skill => truncated curatorMaxBodyChars skill.body) with
    | none => []
    | some embeddings =>
      sortedBy (fun pair => OrderDual.toDual pair.similarity)
        (allPairs setup (skills.zipIdx.map fun skill => (skill.1, embeddings.getD skill.2 [])))

/-- The reviewer merges the pair. -/
def merges (pair : Pair Score) : Bool :=
  match setup.review pair with
  | some decision => decision.merge && strip decision.body != ""
  | none => false

/-- `_propose_merge` -/
def proposeMerge (agentId : UUID) (pair : Pair Score) : Option (SkillProposal Score) :=
  match setup.review pair with
  | none => none
  | some decision =>
    if !decision.merge then none
    else
      let body := strip decision.body
      if body = "" then none
      else some
        { agentId
          skillSlug := decision.slug.getD pair.a.slug
          body := truncated curatorMaxBodyChars body
          similarity := pair.similarity
          sourceSlugs := (pair.a.slug, pair.b.slug)
          reason := truncated 240 decision.reason }

structure CuratorReport where
  keptActive : Nat
  transitionedStale : Nat
  transitionedArchived : Nat
  consolidationProposals : Nat

/-- The pairs the reviewer is asked about. -/
def reviewedPairs (now : Int) (rows : List SkillRow) : List (Pair Score) :=
  (findConsolidationPairs setup
    (((listUser rows).map (moved now)).filter fun skill =>
      skill.curatorState ≠ .archived)).take setup.maxPairs

/-- `run_for_agent`: the rows after the pass, the proposals and the report. -/
def runForAgent (now : Int) (agentId : UUID) (rows : List SkillRow) :
    List SkillRow × List (SkillProposal Score) × CuratorReport :=
  let skills := listUser rows
  let proposals := (reviewedPairs setup now rows).filterMap (proposeMerge setup agentId)
  (transitions now rows, proposals,
    { keptActive := skills.countP fun skill =>
        targetState now skill = skill.curatorState && targetState now skill = .active
      transitionedStale := skills.countP fun skill =>
        targetState now skill ≠ skill.curatorState && targetState now skill = .stale
      transitionedArchived := skills.countP fun skill =>
        targetState now skill ≠ skill.curatorState && targetState now skill = .archived
      consolidationProposals := proposals.length })

end Consolidation

/-! ### What the transitions change -/

/-- What the loop does to a row for one of the skills. -/
def transitionRow (now : Int) (row skill : SkillRow) : SkillRow :=
  if targetState now skill ≠ skill.curatorState ∧ row.isCurrent = true ∧ row.slug = skill.slug then
    { row with curatorState := targetState now skill }
  else row

theorem transition_eq (now : Int) (rows : List SkillRow) (skill : SkillRow) :
    transition now rows skill = rows.map fun row => transitionRow now row skill := by
  unfold transition transitionRow updateCuratorState
  by_cases same : targetState now skill = skill.curatorState
  · rw [if_pos same]
    refine (List.map_id rows).symm.trans (List.map_congr_left fun row _ => ?_)
    exact (if_neg fun changes => changes.1 same).symm
  · rw [if_neg same]
    refine List.map_congr_left fun row _ => ?_
    simp only [ne_eq, same, not_false_eq_true, true_and, Bool.and_eq_true, decide_eq_true_eq]

theorem foldl_transition (now : Int) (skills rows : List SkillRow) :
    skills.foldl (transition now) rows =
      rows.map fun row => skills.foldl (transitionRow now) row := by
  induction skills generalizing rows with
  | nil => exact (List.map_id rows).symm
  | cons skill skills inductionHypothesis =>
    rw [List.foldl_cons, transition_eq, inductionHypothesis, List.map_map]
    rfl

/-- A row is left alone by the skills of other slugs. -/
theorem foldl_transitionRow_absent {now : Int} {row : SkillRow} {skills : List SkillRow}
    (absent : row.isCurrent = true → row.slug ∉ skills.map SkillRow.slug) :
    skills.foldl (transitionRow now) row = row := by
  induction skills with
  | nil => rfl
  | cons skill skills inductionHypothesis =>
    have kept : transitionRow now row skill = row := by
      refine if_neg ?_
      rintro ⟨_, current, own⟩
      exact absent current (own ▸ List.mem_cons_self)
    rw [List.foldl_cons, kept]
    exact inductionHypothesis fun current member =>
      absent current (List.mem_cons_of_mem skill.slug member)

/-- A row is moved by its own skill. -/
theorem foldl_transitionRow_mem {now : Int} {row : SkillRow} {skills : List SkillRow}
    (current : row.isCurrent = true) (distinct : (skills.map SkillRow.slug).Nodup)
    (member : row ∈ skills) : skills.foldl (transitionRow now) row = moved now row := by
  induction skills with
  | nil => cases member
  | cons skill skills inductionHypothesis =>
    rw [List.map_cons, List.nodup_cons] at distinct
    rw [List.foldl_cons]
    rcases List.mem_cons.mp member with rfl | inRest
    · have own : transitionRow now row row = moved now row := by
        unfold transitionRow
        by_cases same : targetState now row = row.curatorState
        · rw [if_neg fun changes => changes.1 same, moved, same]
        · rw [if_pos ⟨same, current, rfl⟩]
          rfl
      rw [own]
      exact foldl_transitionRow_absent fun _ => distinct.1
    · have kept : transitionRow now row skill = row := by
        refine if_neg ?_
        rintro ⟨_, _, own⟩
        exact distinct.1 (own ▸ List.mem_map_of_mem inRest)
      rw [kept]
      exact inductionHypothesis distinct.2 inRest

theorem mem_listUser {rows : List SkillRow} {row : SkillRow} :
    row ∈ listUser rows ↔ row ∈ rows ∧ row.isCurrent = true := by
  unfold listUser
  rw [mem_sortedBy, List.mem_filter]

theorem distinct_listUser (table : SkillTable) :
    ((listUser table.rows).map SkillRow.slug).Nodup :=
  (((sortedBy_perm SkillRow.slug _).map SkillRow.slug).nodup_iff).mpr table.oneCurrent

/-- The pass moves every current row of the user and no other. -/
theorem transitions_eq (now : Int) (table : SkillTable) :
    transitions now table.rows =
      table.rows.map fun row => if row.isCurrent = true then moved now row else row := by
  unfold transitions
  rw [foldl_transition]
  refine List.map_congr_left fun row member => ?_
  by_cases current : row.isCurrent = true
  · rw [if_pos current]
    exact foldl_transitionRow_mem current (distinct_listUser table)
      (mem_listUser.mpr ⟨member, current⟩)
  · rw [if_neg current]
    exact foldl_transitionRow_absent fun isCurrent => absurd isCurrent current

/-- The pass changes states of the agent's rows only. -/
def MovesOwn (now : Int) (agentId : UUID) (rows : List SkillRow) : Prop :=
  ∀ change ∈ rows.zip (transitions now rows),
    change.1.curatorState ≠ change.2.curatorState → change.1.agentId = some agentId

/-- The row is due for another state. -/
def IsDue (now : Int) (skill : SkillRow) : Prop :=
  skill.isCurrent = true ∧ targetState now skill ≠ skill.curatorState

theorem movesOwn_iff (now : Int) (agentId : UUID) (table : SkillTable) :
    MovesOwn now agentId table.rows ↔
      ∀ row ∈ table.rows, row.agentId ≠ some agentId → ¬ IsDue now row := by
  unfold MovesOwn IsDue
  rw [transitions_eq, ← List.map_prod_left_eq_zip, List.forall_mem_map]
  refine forall₂_congr fun row _ => ?_
  by_cases current : row.isCurrent = true
  · simp only [current, if_true, moved, true_and]
    constructor
    · intro own other due
      exact other (own (Ne.symm due))
    · intro kept due
      by_contra other
      exact kept other (Ne.symm due)
  · simp [current]

/-! ### What is proposed -/

section Proposals

variable {Component Score : Type} (setup : Setup Component Score)

theorem proposeMerge_isSome (agentId : UUID) (pair : Pair Score) :
    (proposeMerge setup agentId pair).isSome = merges setup pair := by
  unfold proposeMerge merges
  cases setup.review pair with
  | none => rfl
  | some decision =>
    cases merge : decision.merge with
    | false => simp [merge]
    | true =>
      by_cases isEmpty : strip decision.body = ""
      · simp [merge, isEmpty]
      · simp [merge, isEmpty]

theorem sourceSlugs_of_proposeMerge {agentId : UUID} {pair : Pair Score}
    {proposal : SkillProposal Score} (proposed : proposeMerge setup agentId pair = some proposal) :
    proposal.sourceSlugs = (pair.a.slug, pair.b.slug) := by
  unfold proposeMerge at proposed
  split at proposed
  · cases proposed
  · split at proposed
    · cases proposed
    · simp only at proposed
      split at proposed
      · cases proposed
      · cases proposed
        rfl

variable [LinearOrder Score]

theorem mem_allPairs {skills : List (SkillRow × List Component)} {pair : Pair Score}
    (member : pair ∈ allPairs setup skills) :
    pair.a ∈ skills.map Prod.fst ∧ pair.b ∈ skills.map Prod.fst := by
  induction skills with
  | nil => cases member
  | cons skill later inductionHypothesis =>
    rcases List.mem_append.mp member with own | others
    · unfold pairsWith at own
      split at own
      · cases own
      · obtain ⟨other, isLater, isPair⟩ := List.mem_filterMap.mp own
        simp only at isPair
        split at isPair
        · cases isPair
          exact ⟨List.mem_cons_self, List.mem_cons_of_mem _ (List.mem_map_of_mem isLater)⟩
        · cases isPair
    · have inLater := inductionHypothesis others
      exact ⟨List.mem_cons_of_mem _ inLater.1, List.mem_cons_of_mem _ inLater.2⟩

theorem mem_findConsolidationPairs {skills : List SkillRow} {pair : Pair Score}
    (member : pair ∈ findConsolidationPairs setup skills) : pair.a ∈ skills ∧ pair.b ∈ skills := by
  unfold findConsolidationPairs at member
  split at member
  · cases member
  · split at member
    · cases member
    · rw [mem_sortedBy] at member
      have inside := mem_allPairs setup member
      rw [List.map_map] at inside
      have same : (skills.zipIdx.map fun skill => skill.1) = skills := List.zipIdx_map_fst 0 skills
      exact same ▸ inside

/-- The skills of a reviewed pair are current rows of the user. -/
theorem mem_reviewedPairs {now : Int} {rows : List SkillRow} {pair : Pair Score}
    (member : pair ∈ reviewedPairs setup now rows) :
    (∃ row ∈ listUser rows, row.slug = pair.a.slug ∧ row.agentId = pair.a.agentId) ∧
      ∃ row ∈ listUser rows, row.slug = pair.b.slug ∧ row.agentId = pair.b.agentId := by
  have inside := mem_findConsolidationPairs setup (List.mem_of_mem_take member)
  rw [List.mem_filter, List.mem_filter, List.mem_map, List.mem_map] at inside
  obtain ⟨⟨⟨first, firstListed, isFirst⟩, _⟩, ⟨second, secondListed, isSecond⟩, _⟩ := inside
  rw [← isFirst, ← isSecond]
  exact ⟨⟨first, firstListed, rfl, rfl⟩, second, secondListed, rfl, rfl⟩

/-- The proposals of the pass are about rows of the agent only: the current rows under their
source slugs are the agent's. -/
def ProposesOwn (now : Int) (agentId : UUID) (rows : List SkillRow) : Prop :=
  ∀ proposal ∈ (runForAgent setup now agentId rows).2.1, ∀ row ∈ rows, row.isCurrent = true →
    row.slug = proposal.sourceSlugs.1 ∨ row.slug = proposal.sourceSlugs.2 →
      row.agentId = some agentId

/-- The current row under a slug is the one that was listed. -/
theorem eq_of_slug {table : SkillTable} {row other : SkillRow} (member : row ∈ table.rows)
    (current : row.isCurrent = true) (listed : other ∈ listUser table.rows)
    (same : row.slug = other.slug) : row = other := by
  rw [mem_listUser] at listed
  exact List.inj_on_of_nodup_map table.oneCurrent (List.mem_filter.mpr ⟨member, current⟩)
    (List.mem_filter.mpr listed) same

theorem proposesOwn_iff (now : Int) (agentId : UUID) (table : SkillTable) :
    ProposesOwn setup now agentId table.rows ↔
      ∀ pair ∈ reviewedPairs setup now table.rows, merges setup pair = true →
        pair.a.agentId = some agentId ∧ pair.b.agentId = some agentId := by
  constructor
  · intro own pair member merged
    rw [← proposeMerge_isSome setup agentId, Option.isSome_iff_exists] at merged
    obtain ⟨proposal, proposed⟩ := merged
    have sources := sourceSlugs_of_proposeMerge setup proposed
    have about := own proposal (List.mem_filterMap.mpr ⟨pair, member, proposed⟩)
    rw [sources] at about
    obtain ⟨⟨first, firstListed, firstSlug, firstAgent⟩,
      second, secondListed, secondSlug, secondAgent⟩ := mem_reviewedPairs setup member
    have firstRow := mem_listUser.mp firstListed
    have secondRow := mem_listUser.mp secondListed
    rw [← firstAgent, ← secondAgent]
    exact ⟨about first firstRow.1 firstRow.2 (Or.inl firstSlug),
      about second secondRow.1 secondRow.2 (Or.inr secondSlug)⟩
  · intro own proposal member row isRow current source
    obtain ⟨pair, isPair, proposed⟩ := List.mem_filterMap.mp member
    have merged : merges setup pair = true := by
      rw [← proposeMerge_isSome setup agentId, proposed]
      rfl
    have owned := own pair isPair merged
    rw [sourceSlugs_of_proposeMerge setup proposed] at source
    obtain ⟨⟨first, firstListed, firstSlug, firstAgent⟩,
      second, secondListed, secondSlug, secondAgent⟩ := mem_reviewedPairs setup isPair
    rcases source with same | same
    · rw [eq_of_slug isRow current firstListed (same.trans firstSlug.symm), firstAgent]
      exact owned.1
    · rw [eq_of_slug isRow current secondListed (same.trans secondSlug.symm), secondAgent]
      exact owned.2

end Proposals

/-! ### The config of a turn -/

/-- The tables with the user's skills. -/
def withSkills (tables : ConfigTables) (userId : String) (table : SkillTable) : ConfigTables where
  officials := tables.officials
  users
    | .skills, other =>
      if other = userId then table.rows.map SkillRow.row else tables.users .skills other
    | .instructions, other => tables.users .instructions other
    | .commands, other => tables.users .commands other
    | .mcpServers, other => tables.users .mcpServers other
  cronOfficials := tables.cronOfficials
  optOuts := tables.optOuts

section Turn

variable (isPrintable : Char → Bool) (digest : Json → String) (bundled : BundledTiers)
  (tables : ConfigTables) (userId : String)

/-- The cache after earlier turns of the user's agents (`none`), and entries that Redis dropped. -/
def cacheAfter (earlier : List (Option String)) : ConfigCache :=
  earlier.foldl (fun cache event =>
    match event with
    | none => (getOrComputeEffectiveConfig isPrintable digest bundled cache tables userId).2
    | some key => cache.erase key) ∅

/-- The config that a turn reads: whatever its agent, by the user. -/
def turnConfig (earlier : List (Option String)) : Option EffectiveConfig :=
  (getOrComputeEffectiveConfig isPrintable digest bundled
    (cacheAfter isPrintable digest bundled tables userId earlier) tables userId).1

/-- Without writes in between every turn reads what the resolver computes. -/
theorem turnConfig_eq (earlier : List (Option String)) :
    turnConfig isPrintable digest bundled tables userId earlier =
      some (computeEffectiveConfig isPrintable digest bundled userId tables) := by
  have fresh : ∀ (cache : ConfigCache),
      Fresh (configView isPrintable digest bundled) cache userId
        (computeEffectiveConfig isPrintable digest bundled userId tables) →
      Fresh (configView isPrintable digest bundled)
        (earlier.foldl (fun cache event =>
          match event with
          | none => (getOrComputeEffectiveConfig isPrintable digest bundled cache tables userId).2
          | some key => cache.erase key) cache) userId
        (computeEffectiveConfig isPrintable digest bundled userId tables) := by
    induction earlier with
    | nil => exact fun cache isFresh => isFresh
    | cons event earlier inductionHypothesis =>
      intro cache isFresh
      cases event with
      | none => exact inductionHypothesis _ isFresh.getOrCompute
      | some key => exact inductionHypothesis _ (isFresh.erase key)
  exact View.getOrCompute_eq_iff.mpr (fresh ∅ (fresh_of_uncached (AList.lookup_empty _)))

/-- What the resolver makes of a row. -/
def resolved (skill : SkillRow) : ResolvedSkill := (skillResolver isPrintable).ofUser skill.row.row

/-- The user-scope skills of the config that a turn reads are those of the agent. -/
def ReadsOwn (earlier : List (Option String)) (agentId : UUID) (table : SkillTable) : Prop :=
  ∀ entry, (∃ config, turnConfig isPrintable digest bundled (withSkills tables userId table) userId
        earlier = some config ∧ entry ∈ config.skills ∧ entry.scope = .user) ↔
    ∃ row ∈ table.rows, row.isCurrent = true ∧ row.agentId = some agentId ∧
      entry = resolved isPrintable row

/-- The official skills. -/
def officialSkills : List (Row String Skill) := tables.officials .skills

/-- A mandatory official has the slug. -/
def Covered (slug : String) : Prop :=
  ∃ official ∈ officialSkills tables, official.isCurrent = true ∧
    official.content.mandatory = true ∧ official.name = slug

theorem contains_mandatory_iff (slug : String) :
    (mandatoryOfficialSlugs (skillResolver isPrintable)
        (listOfficial (officialSkills tables))).contains slug = true ↔ Covered tables slug := by
  unfold mandatoryOfficialSlugs listOfficial Covered
  rw [List.contains_iff_mem, List.mem_map]
  constructor
  · rintro ⟨official, member, isSlug⟩
    rw [List.mem_filter, mem_sortedBy, List.mem_filter] at member
    exact ⟨official, member.1.1, member.1.2, member.2, isSlug⟩
  · rintro ⟨official, member, current, mandatory, isSlug⟩
    refine ⟨official, ?_, isSlug⟩
    rw [List.mem_filter, mem_sortedBy, List.mem_filter]
    exact ⟨⟨member, current⟩, mandatory⟩

/-- The user-scope entries of the effective skills are the user's rows that no mandatory official
covers. -/
theorem mem_listEffective_user_iff (optOutSlugs : List String)
    (officials : List (Row String Skill)) {users : List (Row String Skill)}
    (bundledSkills : List BundledSkill) (usersOne : OnePerSlug Row.name users)
    (entry : ResolvedSkill) :
    entry ∈ SkillRepo.listEffective isPrintable optOutSlugs officials users bundledSkills ∧
        entry.scope = .user ↔
      ∃ user ∈ users,
        (mandatoryOfficialSlugs (skillResolver isPrintable) officials).contains user.name = false ∧
          entry = (skillResolver isPrintable).ofUser user := by
  have below : ∀ wanted (entry : ResolvedSkill),
      (overlay Row.name
        (fun official => (skillResolver isPrintable).enabled official.content &&
          !(!(skillResolver isPrintable).mandatory official.content &&
            optOutSlugs.contains official.name))
        (skillResolver isPrintable).ofOfficial
        (overlay (skillResolver isPrintable).bundledSlug (fun _ => true)
          (skillResolver isPrintable).ofBundled ∅ bundledSkills)
        officials).lookup wanted = some entry → entry.scope ≠ .user := by
    refine forall_lookup_overlay (fun _ (entry : ResolvedSkill) => entry.scope ≠ .user) _ _ _ _ _
      (fun official isUser => by cases isUser) ?_
    refine forall_lookup_overlay (fun _ (entry : ResolvedSkill) => entry.scope ≠ .user) _ _ _ _ _
      (fun bundledSkill isUser => by cases isUser) fun wanted entry found => ?_
    rw [AList.lookup_empty] at found
    cases found
  unfold SkillRepo.listEffective Repositories.listEffective mergeTiers
  rw [mem_sortedBy, mem_values_iff]
  constructor
  · rintro ⟨⟨wanted, found⟩, isUser⟩
    rw [lookup_overlay Row.name _ _ _ users usersOne, Option.or_eq_some_iff] at found
    rcases found with own | ⟨_, other⟩
    · obtain ⟨user, kept, isEntry⟩ := Option.map_eq_some_iff.mp own
      obtain ⟨found, keeps⟩ := Option.filter_eq_some_iff.mp kept
      have member := (rowFor_eq_some_iff Row.name users usersOne wanted user).mp found
      refine ⟨user, member.1, ?_, isEntry.symm⟩
      exact Bool.not_eq_true' .. ▸ keeps
    · exact absurd isUser (below wanted entry other)
  · rintro ⟨user, member, uncovered, rfl⟩
    refine ⟨⟨user.name, ?_⟩, rfl⟩
    have found := (rowFor_eq_some_iff Row.name users usersOne user.name user).mpr ⟨member, rfl⟩
    rw [lookup_overlay Row.name _ _ _ users usersOne, found, Option.filter_some, if_pos]
    · rfl
    · show (true && !_) = true
      rw [uncovered]
      rfl

theorem mem_webListUser {table : SkillTable} {user : Row String Skill} :
    user ∈ Web.listUser (table.rows.map SkillRow.row) ↔
      ∃ row ∈ table.rows, row.isCurrent = true ∧ row.row.row = user := by
  unfold Web.listUser
  rw [mem_sortedBy, List.mem_filter, List.map_map, List.mem_map]
  constructor
  · rintro ⟨⟨row, member, rfl⟩, current⟩
    exact ⟨row, member, current, rfl⟩
  · rintro ⟨row, member, current, rfl⟩
    exact ⟨⟨row, member, rfl⟩, current⟩

theorem onePerSlug_webListUser (table : SkillTable) :
    OnePerSlug Row.name (Web.listUser (table.rows.map SkillRow.row)) := by
  unfold OnePerSlug Web.listUser
  refine (((sortedBy_perm Row.name _).map Row.name).nodup_iff).mpr ?_
  have same : (((table.rows.map SkillRow.row).map UserRow.row).filter Row.isCurrent).map Row.name =
      (table.rows.filter SkillRow.isCurrent).map SkillRow.slug := by
    rw [List.map_map, List.filter_map, List.map_map]
    rfl
  rw [same]
  exact table.oneCurrent

/-- The user-scope skills of a turn's config: the user's rows that no mandatory official covers,
whatever their agent. -/
theorem turnSkills_iff (earlier : List (Option String)) (table : SkillTable)
    (entry : ResolvedSkill) :
    (∃ config, turnConfig isPrintable digest bundled (withSkills tables userId table) userId
        earlier = some config ∧ entry ∈ config.skills ∧ entry.scope = .user) ↔
      ∃ row ∈ table.rows, row.isCurrent = true ∧ ¬ Covered tables row.slug ∧
        entry = resolved isPrintable row := by
  rw [turnConfig_eq]
  have skills : (computeEffectiveConfig isPrintable digest bundled userId
      (withSkills tables userId table)).skills =
        SkillRepo.listEffective isPrintable
          (optOutSlugs (withSkills tables userId table) userId "skill")
          (listOfficial (officialSkills tables)) (Web.listUser (table.rows.map SkillRow.row))
          bundled.skills := by
    have rows : (withSkills tables userId table).users .skills userId =
        table.rows.map SkillRow.row := if_pos rfl
    exact congrArg (fun rows : List (UserRow Skill) => SkillRepo.listEffective isPrintable
      (optOutSlugs (withSkills tables userId table) userId "skill")
      (listOfficial (officialSkills tables)) (Web.listUser rows) bundled.skills) rows
  have inConfig := mem_listEffective_user_iff isPrintable
    (optOutSlugs (withSkills tables userId table) userId "skill")
    (listOfficial (officialSkills tables)) bundled.skills (onePerSlug_webListUser table) entry
  rw [← skills] at inConfig
  constructor
  · rintro ⟨config, isConfig, listed⟩
    cases isConfig
    obtain ⟨user, member, uncovered, isEntry⟩ := inConfig.mp listed
    obtain ⟨row, isRow, current, rfl⟩ := mem_webListUser.mp member
    refine ⟨row, isRow, current, fun covered => ?_, isEntry⟩
    rw [← contains_mandatory_iff isPrintable] at covered
    exact absurd (covered.symm.trans uncovered) (by decide)
  · rintro ⟨row, isRow, current, uncovered, isEntry⟩
    refine ⟨_, rfl, inConfig.mpr ⟨row.row.row, mem_webListUser.mpr ⟨row, isRow, current, rfl⟩,
      ?_, isEntry⟩⟩
    rw [← contains_mandatory_iff isPrintable, Bool.not_eq_true] at uncovered
    exact uncovered

/-- The config of a turn has the agent's skills where the user's rows outside of mandatory
officials are the agent's, and the agent has none inside of them. -/
theorem readsOwn_iff (earlier : List (Option String)) (agentId : UUID) (table : SkillTable) :
    ReadsOwn isPrintable digest bundled tables userId earlier agentId table ↔
      ∀ row ∈ table.rows, row.isCurrent = true →
        (row.agentId = some agentId ↔ ¬ Covered tables row.slug) := by
  unfold ReadsOwn
  have sameRow : ∀ row ∈ table.rows, ∀ other ∈ table.rows, row.isCurrent = true →
      other.isCurrent = true → resolved isPrintable row = resolved isPrintable other →
        row = other := by
    intro row member other isOther current otherCurrent same
    exact eq_of_slug member current (mem_listUser.mpr ⟨isOther, otherCurrent⟩)
      (congrArg ResolvedSkill.slug same)
  constructor
  · intro exactly row member current
    have entries := exactly (resolved isPrintable row)
    rw [turnSkills_iff] at entries
    constructor
    · intro own
      obtain ⟨other, isOther, otherCurrent, uncovered, same⟩ :=
        entries.mpr ⟨row, member, current, own, rfl⟩
      rw [sameRow row member other isOther current otherCurrent same]
      exact uncovered
    · intro uncovered
      obtain ⟨other, isOther, otherCurrent, own, same⟩ :=
        entries.mp ⟨row, member, current, uncovered, rfl⟩
      rw [sameRow row member other isOther current otherCurrent same]
      exact own
  · intro apart entry
    rw [turnSkills_iff]
    refine exists_congr fun row => and_congr_right fun member => and_congr_right fun current => ?_
    rw [apart row member current]

end Turn

/-! ### The scope of one agent -/

section Scoped

variable {Component Score : Type} [LinearOrder Score] (setup : Setup Component Score)
  (isPrintable : Char → Bool) (digest : Json → String) (bundled : BundledTiers)
  (tables : ConfigTables) (userId : String)

/-- The curator and the turns of an agent keep to the agent's skills. -/
structure ScopedToAgent (earlier : List (Option String)) (now : Int) (agentId : UUID)
    (table : SkillTable) : Prop where
  moves : MovesOwn now agentId table.rows
  proposes : ProposesOwn setup now agentId table.rows
  reads : ReadsOwn isPrintable digest bundled tables userId earlier agentId table

/-- They do exactly where no row of another agent is due for another state, every pair that the
reviewer merges is of two rows of the agent, and the user's current rows are the agent's but for
the slugs of mandatory officials, where the agent has none. -/
theorem scopedToAgent_iff (earlier : List (Option String)) (now : Int) (agentId : UUID)
    (table : SkillTable) :
    ScopedToAgent setup isPrintable digest bundled tables userId earlier now agentId table ↔
      (∀ row ∈ table.rows, row.agentId ≠ some agentId → ¬ IsDue now row) ∧
      (∀ pair ∈ reviewedPairs setup now table.rows, merges setup pair = true →
        pair.a.agentId = some agentId ∧ pair.b.agentId = some agentId) ∧
      ∀ row ∈ table.rows, row.isCurrent = true →
        (row.agentId = some agentId ↔ ¬ Covered tables row.slug) := by
  rw [← movesOwn_iff, ← proposesOwn_iff, ← readsOwn_iff isPrintable digest bundled tables userId
    earlier]
  exact ⟨fun kept => ⟨kept.moves, kept.proposes, kept.reads⟩,
    fun parts => ⟨parts.1, parts.2.1, parts.2.2⟩⟩

end Scoped

/-! ### Two agents of one user -/

/-- A skill that its agent has not used for forty days. -/
def idleSkill (slug : String) (agentId : UUID) : SkillRow where
  row :=
    { row :=
        { name := slug
          version := 1
          isCurrent := true
          content :=
            { mandatory := false
              enabledDefault := true
              frontmatter := []
              body := "Answer in one line."
              createdBy := none } }
      agentId := some agentId }
  curatorState := .active
  createdAt := none
  lastUsedAt := some 0
  successCount := 1

def twoAgents : SkillTable where
  rows := [idleSkill "brief" 1, idleSkill "short" 2]
  oneCurrent := by decide

/-- Equal bodies are alike, and the reviewer merges what it is shown. -/
def eagerSetup : Setup Int Int where
  embedBatch := fun bodies => some (bodies.map fun _ => [1])
  cosine := fun first second => if first = second then 1 else 0
  consolidateThreshold := 1
  review := fun pair => some { merge := true, slug := none, body := pair.a.body, reason := "" }
  maxPairs := 5

def noTables : ConfigTables where
  officials := fun _ => []
  users := fun _ _ => []
  cronOfficials := []
  optOuts := fun _ => []

/-- The pass for agent 1 moves the skill of agent 2 and proposes to merge it, and the turns of
agent 1 read it. -/
theorem skill_of_other_agent_is_taken :
    ¬ MovesOwn (days 40) 1 twoAgents.rows ∧ ¬ ProposesOwn eagerSetup (days 40) 1 twoAgents.rows ∧
      ¬ ReadsOwn (fun _ => true) (fun _ => "etag")
        { skills := [], instructions := [], commands := [] } noTables "user" [] 1 twoAgents := by
  have other : idleSkill "short" 2 ∈ twoAgents.rows := List.mem_cons_of_mem _ List.mem_cons_self
  refine ⟨?_, ?_, ?_⟩
  · rw [movesOwn_iff]
    intro kept
    exact kept (idleSkill "short" 2) other (by decide) ⟨rfl, by decide⟩
  · rw [proposesOwn_iff]
    intro own
    have pairs : (reviewedPairs eagerSetup (days 40) twoAgents.rows).map
        (fun pair => (merges eagerSetup pair, pair.b.agentId)) = [(true, some 2)] := by decide
    obtain ⟨pair, member, isPair⟩ := List.mem_map.mp (pairs ▸ List.mem_singleton_self _)
    obtain ⟨merged, agent⟩ := Prod.mk.inj isPair
    have otherAgent := (own pair member merged).2
    rw [agent] at otherAgent
    cases otherAgent
  · rw [readsOwn_iff]
    intro apart
    have own := (apart (idleSkill "short" 2) other rfl).mpr
      (fun ⟨_, member, _⟩ => by cases member)
    cases own

end LiteHorse.Worker.Curator
