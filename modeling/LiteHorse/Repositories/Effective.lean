/-
This file models the layered resolution of skills, instructions, commands and MCP servers:
bundled entries, official rows and the user's own rows are merged into one list with at most
one entry for a slug.

The repositories lay the tiers over one another in a dictionary, bundled first and user rows
last, and skip rows on the way: official rows that may be and are opted out of, user rows
whose slug has a mandatory official, and, for MCP servers, disabled rows. What the order of
these overwrites means is written down as a rule for one slug (`effectiveRule`, and
`effectiveMcpRule` for MCP servers), and the main result says that all four repositories
follow it.
-/

import LiteHorse.Library.Layers
import LiteHorse.Repositories.Official

namespace LiteHorse.Repositories

open Layers Python Sorting Versions

inductive Scope where
  | bundled
  | official
  | user
  deriving DecidableEq

/-! ### The resolved entries -/

structure ResolvedSkill where
  slug : String
  scope : Scope
  description : String
  body : String
  frontmatter : List (String × Json)
  enabledDefault : Bool
  mandatory : Bool

structure ResolvedInstruction where
  slug : String
  scope : Scope
  body : String
  priority : Int
  mandatory : Bool

structure ResolvedCommand where
  slug : String
  scope : Scope
  promptTpl : String
  description : Option String
  argSchema : Option (List (String × Json))
  bindSkills : List String

structure ResolvedMcpServer where
  slug : String
  scope : Scope
  url : String
  authHeader : Option String
  authValueCt : Option ByteArray
  cacheToolsList : Bool
  enabled : Bool
  mandatory : Bool
  userId : Option String

structure BundledSkill where
  slug : String
  frontmatter : List (String × Json)
  body : String

structure BundledInstruction where
  slug : String
  body : String
  priority : Int := 100
  mandatory : Bool := false

structure BundledCommand where
  slug : String
  promptTpl : String
  description : Option String := none
  argSchema : Option (List (String × Json)) := none
  bindSkills : List String := []

/-! ### The three tiers -/

/-- What a repository reads off the rows of its tiers and makes of them. Rows that are not
enabled are no candidates; only MCP servers can be disabled. -/
structure Resolver (Content Bundled Entry : Type) where
  mandatory : Content → Bool
  enabled : Content → Bool := fun _ => true
  bundledSlug : Bundled → String
  ofBundled : Bundled → Entry
  ofOfficial : Row String Content → Entry
  ofUser : Row String Content → Entry

section Resolution

variable {Content Bundled Entry : Type} (resolver : Resolver Content Bundled Entry)

/-- The slugs of the mandatory officials, disabled ones included. -/
def mandatoryOfficialSlugs (officials : List (Row String Content)) : List String :=
  (officials.filter fun official => resolver.mandatory official.content).map Row.name

/-- Lay the officials over the bundled entries and the user's rows over both. -/
def mergeTiers (optOutSlugs : List String) (officials users : List (Row String Content))
    (bundled : List Bundled) : Merged String Entry :=
  let fromBundled := overlay resolver.bundledSlug (fun _ => true) resolver.ofBundled ∅ bundled
  let withOfficials := overlay Row.name
    (fun official => resolver.enabled official.content &&
      !(!resolver.mandatory official.content && optOutSlugs.contains official.name))
    resolver.ofOfficial fromBundled officials
  overlay Row.name
    (fun user => resolver.enabled user.content &&
      !(mandatoryOfficialSlugs resolver officials).contains user.name)
    resolver.ofUser withOfficials users

/-- `list_effective`: the merged entries, sorted. -/
def listEffective {Order : Type*} [LinearOrder Order] (sortKey : Entry → Order)
    (optOutSlugs : List String) (officials users : List (Row String Content))
    (bundled : List Bundled) : List Entry :=
  sortedBy sortKey (values (mergeTiers resolver optOutSlugs officials users bundled))

end Resolution

section Repos

variable (isPrintable : Char → Bool)

/-- `str(frontmatter.get("description") or "").strip()`. -/
def frontmatterDescription (frontmatter : List (String × Json)) : String :=
  match getField frontmatter "description" with
  | some value => if value.truthy then strip (value.toStr isPrintable) else ""
  | none => ""

def skillResolver : Resolver Skill BundledSkill ResolvedSkill where
  mandatory := Skill.mandatory
  bundledSlug := BundledSkill.slug
  ofBundled bundled :=
    { slug := bundled.slug
      scope := .bundled
      description := frontmatterDescription isPrintable bundled.frontmatter
      body := bundled.body
      frontmatter := bundled.frontmatter
      enabledDefault := true
      mandatory := false }
  ofOfficial official :=
    { slug := official.name
      scope := .official
      description := frontmatterDescription isPrintable official.content.frontmatter
      body := official.content.body
      frontmatter := official.content.frontmatter
      enabledDefault := official.content.enabledDefault
      mandatory := official.content.mandatory }
  ofUser user :=
    { slug := user.name
      scope := .user
      description := frontmatterDescription isPrintable user.content.frontmatter
      body := user.content.body
      frontmatter := user.content.frontmatter
      enabledDefault := user.content.enabledDefault
      mandatory := false }

/-- `SkillRepo.list_effective`, sorted by slug. -/
def SkillRepo.listEffective :=
  Repositories.listEffective (skillResolver isPrintable) ResolvedSkill.slug

def instructionResolver : Resolver Instruction BundledInstruction ResolvedInstruction where
  mandatory := Instruction.mandatory
  bundledSlug := BundledInstruction.slug
  ofBundled bundled :=
    { slug := bundled.slug
      scope := .bundled
      body := bundled.body
      priority := bundled.priority
      mandatory := bundled.mandatory }
  ofOfficial official :=
    { slug := official.name
      scope := .official
      body := official.content.body
      priority := official.content.priority
      mandatory := official.content.mandatory }
  ofUser user :=
    { slug := user.name
      scope := .user
      body := user.content.body
      priority := user.content.priority
      mandatory := false }

/-- `InstructionRepo.list_effective`, sorted by priority and slug. -/
def InstructionRepo.listEffective :=
  Repositories.listEffective instructionResolver fun entry => toLex (entry.priority, entry.slug)

def commandResolver : Resolver Command BundledCommand ResolvedCommand where
  mandatory := Command.mandatory
  bundledSlug := BundledCommand.slug
  ofBundled bundled :=
    { slug := bundled.slug
      scope := .bundled
      promptTpl := bundled.promptTpl
      description := bundled.description
      argSchema := bundled.argSchema
      bindSkills := bundled.bindSkills }
  ofOfficial official :=
    { slug := official.name
      scope := .official
      promptTpl := official.content.promptTpl
      description := official.content.description
      argSchema := official.content.argSchema
      bindSkills := official.content.bindSkills.getD [] }
  ofUser user :=
    { slug := user.name
      scope := .user
      promptTpl := user.content.promptTpl
      description := user.content.description
      argSchema := user.content.argSchema
      bindSkills := user.content.bindSkills.getD [] }

/-- `CommandRepo.list_effective`, sorted by slug. -/
def CommandRepo.listEffective :=
  Repositories.listEffective commandResolver ResolvedCommand.slug

/-- MCP servers have no bundled tier. The user's rows are those of the current user. -/
def mcpResolver (userId : String) : Resolver McpServer Empty ResolvedMcpServer where
  mandatory := McpServer.mandatory
  enabled := McpServer.enabled
  bundledSlug := Empty.elim
  ofBundled := Empty.elim
  ofOfficial official :=
    { slug := official.name
      scope := .official
      url := official.content.url
      authHeader := official.content.authHeader
      authValueCt := official.content.authValueCt.filter fun ciphertext => !ciphertext.isEmpty
      cacheToolsList := official.content.cacheToolsList
      enabled := official.content.enabled
      mandatory := official.content.mandatory
      userId := none }
  ofUser user :=
    { slug := user.name
      scope := .user
      url := user.content.url
      authHeader := user.content.authHeader
      authValueCt := user.content.authValueCt.filter fun ciphertext => !ciphertext.isEmpty
      cacheToolsList := user.content.cacheToolsList
      enabled := user.content.enabled
      mandatory := false
      userId := some userId }

/-- `McpRepo.list_effective`, sorted by slug. -/
def McpRepo.listEffective (userId : String) (optOutSlugs : List String)
    (officials users : List (Row String McpServer)) : List ResolvedMcpServer :=
  Repositories.listEffective (mcpResolver userId) ResolvedMcpServer.slug optOutSlugs officials
    users []

end Repos

/-! ### The rule for one slug -/

section Rule

variable {Content Bundled Entry : Type} (resolver : Resolver Content Bundled Entry)

/-- The mandatory official if there is one; otherwise the user's row; otherwise the official
if it is not opted out; otherwise the bundled entry. -/
def effectiveRule (optOutSlugs : List String) (officials users : List (Row String Content))
    (bundled : List Bundled) (slug : String) : Option Entry :=
  let official := rowFor Row.name officials slug
  let user := rowFor Row.name users slug
  match official.filter fun row => resolver.mandatory row.content with
  | some mandatoryOfficial => some (resolver.ofOfficial mandatoryOfficial)
  | none =>
    (user.map resolver.ofUser).or
      (((official.filter fun _ => slug ∉ optOutSlugs).map resolver.ofOfficial).or
        ((rowFor resolver.bundledSlug bundled slug).map resolver.ofBundled))

/-- The same rule without a bundled tier, where a disabled row is no candidate but a disabled
mandatory official still keeps the user's row out. -/
def effectiveMcpRule (resolver : Resolver Content Empty Entry) (optOutSlugs : List String)
    (officials users : List (Row String Content)) (slug : String) : Option Entry :=
  let official := rowFor Row.name officials slug
  let user := rowFor Row.name users slug
  match official.filter fun row => resolver.mandatory row.content with
  | some mandatoryOfficial =>
    if resolver.enabled mandatoryOfficial.content then
      some (resolver.ofOfficial mandatoryOfficial)
    else none
  | none =>
    ((user.filter fun row => resolver.enabled row.content).map resolver.ofUser).or
      ((official.filter fun row => resolver.enabled row.content && slug ∉ optOutSlugs).map
        resolver.ofOfficial)

/-- At most one row for a slug, as the unique indexes have it for the current rows. -/
def OnePerSlug {Tier : Type} (slug : Tier → String) (rows : List Tier) : Prop :=
  (rows.map slug).Nodup

/-- Over tiers with at most one row for a slug, the list holds for each slug the one entry the
rule chooses and is sorted, and it does not depend on the order the rows were read in. -/
def FollowsRule {Order : Type*} [LinearOrder Order] (slugOf : Entry → String)
    (sortKey : Entry → Order) (bundledSlug : Bundled → String)
    (rule : List String → List (Row String Content) → List (Row String Content) → List Bundled →
      String → Option Entry)
    (list : List String → List (Row String Content) → List (Row String Content) → List Bundled →
      List Entry) : Prop :=
  ∀ optOutSlugs officials users bundled, OnePerSlug Row.name officials →
    OnePerSlug Row.name users → OnePerSlug bundledSlug bundled →
      Layered slugOf sortKey (rule optOutSlugs officials users bundled)
        (list optOutSlugs officials users bundled) ∧
      ∀ otherOfficials otherUsers otherBundled, otherOfficials.Perm officials →
        otherUsers.Perm users → otherBundled.Perm bundled →
          list optOutSlugs otherOfficials otherUsers otherBundled =
            list optOutSlugs officials users bundled

/-! ### The overwrites compute the rule -/

theorem contains_mandatoryOfficialSlugs (officials : List (Row String Content))
    (officialsOne : OnePerSlug Row.name officials) (slug : String) :
    (mandatoryOfficialSlugs resolver officials).contains slug =
      (rowFor Row.name officials slug).any fun row => resolver.mandatory row.content := by
  rw [Bool.eq_iff_iff, List.contains_iff_mem]
  unfold mandatoryOfficialSlugs
  rw [List.mem_map]
  constructor
  · rintro ⟨row, member, own⟩
    obtain ⟨member, mandatory⟩ := List.mem_filter.mp member
    rw [(rowFor_eq_some_iff Row.name officials officialsOne slug row).mpr ⟨member, own⟩]
    exact mandatory
  · intro some
    cases found : rowFor Row.name officials slug with
    | none =>
      rw [found] at some
      cases some
    | some row =>
      rw [found] at some
      obtain ⟨member, own⟩ := (rowFor_eq_some_iff Row.name officials officialsOne slug row).mp found
      exact ⟨row, List.mem_filter.mpr ⟨member, some⟩, own⟩

/-- What the dictionary holds for a slug in the end. Where the bundled tier has several
entries for it, its last one counts. -/
theorem lookup_mergeTiers_last (optOutSlugs : List String)
    (officials users : List (Row String Content)) (bundled : List Bundled)
    (officialsOne : OnePerSlug Row.name officials) (usersOne : OnePerSlug Row.name users)
    (slug : String) :
    (mergeTiers resolver optOutSlugs officials users bundled).lookup slug =
      (((rowFor Row.name users slug).filter fun user => resolver.enabled user.content &&
          !(rowFor Row.name officials slug).any fun row => resolver.mandatory row.content).map
        resolver.ofUser).or
        ((((rowFor Row.name officials slug).filter fun official =>
            resolver.enabled official.content &&
              !(!resolver.mandatory official.content && optOutSlugs.contains slug)).map
          resolver.ofOfficial).or
          ((rowFor resolver.bundledSlug bundled.reverse slug).map resolver.ofBundled)) := by
  unfold mergeTiers
  simp only [lookup_overlay _ _ _ _ _ usersOne, lookup_overlay _ _ _ _ _ officialsOne,
    lookup_overlay_last resolver.bundledSlug, List.filter_true]
  have usersKept : ((rowFor Row.name users slug).filter fun user =>
      resolver.enabled user.content &&
        !(mandatoryOfficialSlugs resolver officials).contains user.name) =
      (rowFor Row.name users slug).filter fun user => resolver.enabled user.content &&
        !(rowFor Row.name officials slug).any fun row => resolver.mandatory row.content := by
    refine filter_rowFor_congr Row.name users slug fun row own => ?_
    rw [own, contains_mandatoryOfficialSlugs resolver officials officialsOne]
  have officialsKept : ((rowFor Row.name officials slug).filter fun official =>
      resolver.enabled official.content &&
        !(!resolver.mandatory official.content && optOutSlugs.contains official.name)) =
      (rowFor Row.name officials slug).filter fun official =>
        resolver.enabled official.content &&
          !(!resolver.mandatory official.content && optOutSlugs.contains slug) := by
    refine filter_rowFor_congr Row.name officials slug fun row own => ?_
    rw [own]
  rw [usersKept, officialsKept, AList.lookup_empty, Option.or_none]

theorem lookup_mergeTiers (optOutSlugs : List String) (officials users : List (Row String Content))
    (bundled : List Bundled) (officialsOne : OnePerSlug Row.name officials)
    (usersOne : OnePerSlug Row.name users) (bundledOne : OnePerSlug resolver.bundledSlug bundled)
    (slug : String) :
    (mergeTiers resolver optOutSlugs officials users bundled).lookup slug =
      (((rowFor Row.name users slug).filter fun user => resolver.enabled user.content &&
          !(rowFor Row.name officials slug).any fun row => resolver.mandatory row.content).map
        resolver.ofUser).or
        ((((rowFor Row.name officials slug).filter fun official =>
            resolver.enabled official.content &&
              !(!resolver.mandatory official.content && optOutSlugs.contains slug)).map
          resolver.ofOfficial).or
          ((rowFor resolver.bundledSlug bundled slug).map resolver.ofBundled)) := by
  rw [lookup_mergeTiers_last resolver optOutSlugs officials users bundled officialsOne usersOne,
    rowFor_congr_perm resolver.bundledSlug bundled.reverse_perm
      ((bundled.reverse_perm.map resolver.bundledSlug).nodup_iff.mpr bundledOne)]

/-- Where every row is enabled, the dictionary is the rule. -/
theorem lookup_mergeTiers_eq_rule (allEnabled : ∀ content, resolver.enabled content = true)
    (optOutSlugs : List String) (officials users : List (Row String Content))
    (bundled : List Bundled) (officialsOne : OnePerSlug Row.name officials)
    (usersOne : OnePerSlug Row.name users) (bundledOne : OnePerSlug resolver.bundledSlug bundled)
    (slug : String) :
    (mergeTiers resolver optOutSlugs officials users bundled).lookup slug =
      effectiveRule resolver optOutSlugs officials users bundled slug := by
  rw [lookup_mergeTiers resolver optOutSlugs officials users bundled officialsOne usersOne
    bundledOne]
  unfold effectiveRule
  simp only [allEnabled, Bool.true_and]
  cases rowFor Row.name officials slug with
  | none =>
    cases rowFor Row.name users slug with
    | none => simp
    | some user => simp [Option.filter_some]
  | some official =>
    cases mandatory : resolver.mandatory official.content with
    | true => simp [mandatory, Option.filter_some]
    | false =>
      cases rowFor Row.name users slug with
      | none => simp [mandatory, Option.filter_some]
      | some user => simp [mandatory, Option.filter_some]

/-- Without bundled entries, the dictionary is the rule of MCP servers. -/
theorem lookup_mergeTiers_eq_mcpRule (resolver : Resolver Content Empty Entry)
    (optOutSlugs : List String) (officials users : List (Row String Content))
    (officialsOne : OnePerSlug Row.name officials) (usersOne : OnePerSlug Row.name users)
    (slug : String) :
    (mergeTiers resolver optOutSlugs officials users []).lookup slug =
      effectiveMcpRule resolver optOutSlugs officials users slug := by
  rw [lookup_mergeTiers resolver optOutSlugs officials users [] officialsOne usersOne
    List.nodup_nil]
  unfold effectiveMcpRule
  cases rowFor Row.name officials slug with
  | none => simp [rowFor]
  | some official =>
    cases mandatory : resolver.mandatory official.content with
    | true =>
      cases enabled : resolver.enabled official.content with
      | true => simp [mandatory, enabled, Option.filter_some, rowFor]
      | false => simp [mandatory, enabled, Option.filter_some, rowFor]
    | false => simp [mandatory, Option.filter_some, rowFor]

theorem keyed_mergeTiers (slugOf : Entry → String)
    (ofBundled : ∀ row, slugOf (resolver.ofBundled row) = resolver.bundledSlug row)
    (ofOfficial : ∀ row, slugOf (resolver.ofOfficial row) = row.name)
    (ofUser : ∀ row, slugOf (resolver.ofUser row) = row.name)
    (optOutSlugs : List String) (officials users : List (Row String Content))
    (bundled : List Bundled) :
    Keyed slugOf (mergeTiers resolver optOutSlugs officials users bundled) := by
  unfold mergeTiers
  refine keyed_overlay slugOf _ _ _ _ _ ofUser (keyed_overlay slugOf _ _ _ _ _ ofOfficial
    (keyed_overlay slugOf _ _ _ _ _ ofBundled fun wanted entry found => ?_))
  rw [AList.lookup_empty] at found
  cases found

/-- A property of what each tier resolves to is a property of the effective entries. -/
theorem forall_mem_listEffective {Order : Type*} [LinearOrder Order] {sortKey : Entry → Order}
    (property : Entry → Prop) (ofBundled : ∀ row, property (resolver.ofBundled row))
    (ofOfficial : ∀ row, property (resolver.ofOfficial row))
    (ofUser : ∀ row, property (resolver.ofUser row)) {optOutSlugs : List String}
    {officials users : List (Row String Content)} {bundled : List Bundled} {entry : Entry}
    (member : entry ∈ listEffective resolver sortKey optOutSlugs officials users bundled) :
    property entry := by
  unfold listEffective at member
  rw [mem_sortedBy, mem_values_iff] at member
  obtain ⟨slug, found⟩ := member
  unfold mergeTiers at found
  refine forall_lookup_overlay (fun _ => property) _ _ _ _ _ ofUser
    (forall_lookup_overlay _ _ _ _ _ _ ofOfficial
      (forall_lookup_overlay _ _ _ _ _ _ ofBundled fun wanted entry found => ?_)) slug entry found
  rw [AList.lookup_empty] at found
  cases found

/-- A list that is computed as `listEffective` follows any rule its dictionary computes and
that does not depend on the order of the rows. -/
theorem followsRule_of_lookup {Order : Type*} [LinearOrder Order] (slugOf : Entry → String)
    (sortKey : Entry → Order)
    (telling : ∀ first second, sortKey first = sortKey second → slugOf first = slugOf second)
    (ofBundled : ∀ row, slugOf (resolver.ofBundled row) = resolver.bundledSlug row)
    (ofOfficial : ∀ row, slugOf (resolver.ofOfficial row) = row.name)
    (ofUser : ∀ row, slugOf (resolver.ofUser row) = row.name)
    (rule : List String → List (Row String Content) → List (Row String Content) → List Bundled →
      String → Option Entry)
    (computes : ∀ optOutSlugs officials users bundled, OnePerSlug Row.name officials →
      OnePerSlug Row.name users → OnePerSlug resolver.bundledSlug bundled → ∀ slug,
        (mergeTiers resolver optOutSlugs officials users bundled).lookup slug =
          rule optOutSlugs officials users bundled slug) :
    FollowsRule slugOf sortKey resolver.bundledSlug rule (listEffective resolver sortKey) := by
  intro optOutSlugs officials users bundled officialsOne usersOne bundledOne
  have layered : ∀ officials users bundled,
      Layered slugOf sortKey (mergeTiers resolver optOutSlugs officials users bundled).lookup
        (listEffective resolver sortKey optOutSlugs officials users bundled) :=
    fun officials users bundled => layered_values slugOf sortKey _
      (keyed_mergeTiers resolver slugOf ofBundled ofOfficial ofUser _ _ _ _)
  refine ⟨(layered officials users bundled).congr
    (computes optOutSlugs officials users bundled officialsOne usersOne bundledOne), ?_⟩
  intro otherOfficials otherUsers otherBundled officialsPerm usersPerm bundledPerm
  have otherOfficialsOne : OnePerSlug Row.name otherOfficials :=
    (officialsPerm.map Row.name).nodup_iff.mpr officialsOne
  have otherUsersOne : OnePerSlug Row.name otherUsers :=
    (usersPerm.map Row.name).nodup_iff.mpr usersOne
  have otherBundledOne : OnePerSlug resolver.bundledSlug otherBundled :=
    (bundledPerm.map resolver.bundledSlug).nodup_iff.mpr bundledOne
  refine ((layered otherOfficials otherUsers otherBundled).congr fun slug => ?_).unique telling
    (layered officials users bundled)
  rw [lookup_mergeTiers resolver _ _ _ _ officialsOne usersOne bundledOne,
    lookup_mergeTiers resolver _ _ _ _ otherOfficialsOne otherUsersOne otherBundledOne,
    rowFor_congr_perm Row.name officialsPerm otherOfficialsOne,
    rowFor_congr_perm Row.name usersPerm otherUsersOne,
    rowFor_congr_perm resolver.bundledSlug bundledPerm otherBundledOne]

end Rule

/-! ### The official tier of a reachable table -/

/-- `list_official`: the current rows, by slug. -/
def listOfficial {Content : Type} (rows : List (Row String Content)) : List (Row String Content) :=
  sortedBy Row.name (rows.filter Row.isCurrent)

theorem onePerSlug_current {Content : Type} {rows : List (Row String Content)}
    (oneCurrent : OneCurrent rows) : OnePerSlug Row.name (listOfficial rows) := by
  unfold OnePerSlug listOfficial
  exact ((sortedBy_perm Row.name _).map Row.name).nodup_iff.mpr (nodup_current rows oneCurrent)

/-- The official rows a repository reads have one row for a slug, after any admin calls. -/
theorem onePerSlug_listOfficial (repo : VersionedRepo) (calls : List (OfficialCall repo))
    (reached : OfficialHistory repo)
    (run : Runs.exec (stepOfficial repo) History.empty calls = some reached) :
    OnePerSlug Row.name (listOfficial reached.rows) :=
  onePerSlug_current (oneCurrent_calls repo calls reached run)

/-! ### The four repositories -/

/-- All four repositories resolve their tiers by the rule, MCP servers by theirs. -/
theorem listEffective_followsRule (isPrintable : Char → Bool) (userId : String) :
    FollowsRule ResolvedSkill.slug ResolvedSkill.slug BundledSkill.slug
        (effectiveRule (skillResolver isPrintable)) (SkillRepo.listEffective isPrintable) ∧
      FollowsRule ResolvedInstruction.slug (fun entry => toLex (entry.priority, entry.slug))
        BundledInstruction.slug (effectiveRule instructionResolver)
        InstructionRepo.listEffective ∧
      FollowsRule ResolvedCommand.slug ResolvedCommand.slug BundledCommand.slug
        (effectiveRule commandResolver) CommandRepo.listEffective ∧
      FollowsRule ResolvedMcpServer.slug ResolvedMcpServer.slug Empty.elim
        (fun optOutSlugs officials users _ =>
          effectiveMcpRule (mcpResolver userId) optOutSlugs officials users)
        (fun optOutSlugs officials users _ =>
          McpRepo.listEffective userId optOutSlugs officials users) := by
  refine ⟨?_, ?_, ?_, ?_⟩
  · exact followsRule_of_lookup (skillResolver isPrintable) _ _ (fun _ _ same => same)
      (fun _ => rfl) (fun _ => rfl) (fun _ => rfl) _
      (lookup_mergeTiers_eq_rule (skillResolver isPrintable) fun _ => rfl)
  · refine followsRule_of_lookup instructionResolver _ _ (fun first second same => ?_)
      (fun _ => rfl) (fun _ => rfl) (fun _ => rfl) _
      (lookup_mergeTiers_eq_rule instructionResolver fun _ => rfl)
    exact congrArg (fun key => (ofLex key).2) same
  · exact followsRule_of_lookup commandResolver _ _ (fun _ _ same => same)
      (fun _ => rfl) (fun _ => rfl) (fun _ => rfl) _
      (lookup_mergeTiers_eq_rule commandResolver fun _ => rfl)
  · have computes : ∀ optOutSlugs officials users (bundled : List Empty),
        OnePerSlug Row.name officials → OnePerSlug Row.name users →
          OnePerSlug Empty.elim bundled → ∀ slug,
            (mergeTiers (mcpResolver userId) optOutSlugs officials users bundled).lookup slug =
              effectiveMcpRule (mcpResolver userId) optOutSlugs officials users slug := by
      intro optOutSlugs officials users bundled officialsOne usersOne _ slug
      cases bundled with
      | nil =>
        exact lookup_mergeTiers_eq_mcpRule (mcpResolver userId) optOutSlugs officials users
          officialsOne usersOne slug
      | cons none _ => exact none.elim
    have follows := followsRule_of_lookup (mcpResolver userId) ResolvedMcpServer.slug
      ResolvedMcpServer.slug (fun _ _ same => same) (fun none => none.elim) (fun _ => rfl)
      (fun _ => rfl) _ computes
    intro optOutSlugs officials users _ officialsOne usersOne _
    obtain ⟨layered, reordered⟩ := follows optOutSlugs officials users [] officialsOne usersOne
      List.nodup_nil
    exact ⟨layered, fun otherOfficials otherUsers _ officialsPerm usersPerm _ =>
      reordered otherOfficials otherUsers [] officialsPerm usersPerm (List.Perm.refl [])⟩

/-- A mandatory official and a user's row under one slug: the official is the entry. -/
theorem mandatory_official_outranks_user :
    (SkillRepo.listEffective (fun _ => true) ["deploy"]
        [⟨"deploy", 1, true, ⟨true, true, [], "official", none⟩⟩]
        [⟨"deploy", 1, true, ⟨false, true, [], "mine", none⟩⟩] []).filter
          (fun entry => entry.slug = "deploy") =
      [⟨"deploy", .official, "", "official", [], true, true⟩] := by
  have follows := (listEffective_followsRule (fun _ => true) "alice").1 ["deploy"]
    [⟨"deploy", 1, true, ⟨true, true, [], "official", none⟩⟩]
    [⟨"deploy", 1, true, ⟨false, true, [], "mine", none⟩⟩] []
    (List.nodup_singleton _) (List.nodup_singleton _) List.nodup_nil
  exact follows.1.chosen "deploy"

end LiteHorse.Repositories
