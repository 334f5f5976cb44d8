/-
This file models `CommandRepo.expand`, which renders the template of a slash command, and
compares it with `list_effective`.

`expand` looks the slug up tier by tier, the user's row first, then the official row, then the
bundled commands, while `list_effective` lays the tiers over one another. The lookups know of no
opt-outs and of no mandatory officials, and of two bundled commands of one slug they take the
first where the dictionary keeps the last. `expandsListed_iff` says when none of this shows.
-/

import LiteHorse.Repositories.Effective

namespace LiteHorse.Repositories

open Layers Python Sorting Versions

/-- The commands: the official rows, the rows of the user and the bundled tier. The partial
unique indexes leave one current row of a slug in either table. -/
structure CommandTables where
  officials : List (Row String Command)
  users : List (Row String Command)
  bundled : List BundledCommand
  officialsOne : OneCurrent officials
  usersOne : OneCurrent users

/-- What `expand` raises. -/
inductive ExpandError (Raised : Type) where
  | multipleResultsFound
  | keyError (message : String)
  /-- The template or its variables. -/
  | rendering (raised : Raised)

/-- `_ENV.from_string(template).render(**args)` -/
abbrev Render (Raised : Type) := String → List (String × Json) → Except Raised String

/-- `get_user` and `get_official`: the current row of the slug. -/
def getCommand {Raised : Type} (rows : List (Row String Command)) (slug : String) :
    Except (ExpandError Raised) (Option (Row String Command)) :=
  (scalarOneOrNone (rows.filter (Row.currentOf slug))).mapError fun _ => .multipleResultsFound

def unknownSlug (isPrintable : Char → Bool) (slug : String) : String :=
  "unknown command slug: " ++ reprString isPrintable slug

namespace CommandTables

variable (tables : CommandTables)

/-- `CommandRepo.expand` -/
def expand {Raised : Type} (isPrintable : Char → Bool) (render : Render Raised) (slug : String)
    (args : List (String × Json)) : Except (ExpandError Raised) String := do
  let row ←
    match ← getCommand tables.users slug with
    | some row => pure (some row)
    | none => getCommand tables.officials slug
  match row with
  | some row => (render row.content.promptTpl args).mapError .rendering
  | none =>
    match tables.bundled.find? fun bundled => bundled.slug = slug with
    | some bundled => (render bundled.promptTpl args).mapError .rendering
    | none => throw (.keyError (unknownSlug isPrintable slug))

/-- `list_effective` -/
def listEffective (optOutSlugs : List String) : List ResolvedCommand :=
  CommandRepo.listEffective optOutSlugs (listOfficial tables.officials)
    (listOfficial tables.users) tables.bundled

/-- The entry that `list_effective` holds for the slug. -/
def effectiveEntry (optOutSlugs : List String) (slug : String) : Option ResolvedCommand :=
  (tables.listEffective optOutSlugs).find? fun entry => entry.slug = slug

/-- Whatever the arguments, `expand` renders the template of the effective entry, and raises the
`KeyError` of an unknown slug if there is none. -/
def ExpandsListed (Raised : Type) (isPrintable : Char → Bool) (optOutSlugs : List String)
    (slug : String) : Prop :=
  ∀ (render : Render Raised) (args : List (String × Json)),
    tables.expand isPrintable render slug args =
      match tables.effectiveEntry optOutSlugs slug with
      | some entry => (render entry.promptTpl args).mapError .rendering
      | none => .error (.keyError (unknownSlug isPrintable slug))

/-! ### The rows of one slug -/

def officialRow (slug : String) : Option (Row String Command) :=
  rowFor Row.name (listOfficial tables.officials) slug

def userRow (slug : String) : Option (Row String Command) :=
  rowFor Row.name (listOfficial tables.users) slug

def firstBundled (slug : String) : Option BundledCommand :=
  rowFor BundledCommand.slug tables.bundled slug

def lastBundled (slug : String) : Option BundledCommand :=
  rowFor BundledCommand.slug tables.bundled.reverse slug

/-- The templates agree where the two procedures choose differently: a mandatory official over a
user's row, a bundled command below an official that is opted out of, and several bundled
commands of one slug. -/
def ResolvesAlike (optOutSlugs : List String) (slug : String) : Prop :=
  match tables.userRow slug, tables.officialRow slug with
  | some user, some official =>
    official.content.mandatory = true → official.content.promptTpl = user.content.promptTpl
  | some _, none => True
  | none, some official =>
    official.content.mandatory = false → slug ∈ optOutSlugs →
      (tables.lastBundled slug).map BundledCommand.promptTpl = some official.content.promptTpl
  | none, none =>
    (tables.firstBundled slug).map BundledCommand.promptTpl =
      (tables.lastBundled slug).map BundledCommand.promptTpl

end CommandTables

/-! ### The template of one slug -/

/-- A query by slug finds the row that the listing holds for it. -/
theorem getCommand_eq {Raised : Type} {rows : List (Row String Command)}
    (oneCurrent : OneCurrent rows) (slug : String) :
    (getCommand rows slug : Except (ExpandError Raised) _) =
      .ok (rowFor Row.name (listOfficial rows) slug) := by
  have listed : ∀ row, row ∈ listOfficial rows ∧ row.name = slug ↔
      row ∈ rows.filter (Row.currentOf slug) := by
    intro row
    rw [listOfficial, mem_sortedBy, List.mem_filter, List.mem_filter, currentOf_iff, and_assoc,
      and_comm (a := row.name = slug)]
  unfold getCommand
  rcases filter_currentOf_cases rows slug oneCurrent with nothing | ⟨current, found⟩
  · have absent : rowFor Row.name (listOfficial rows) slug = none := by
      refine rowFor_eq_none Row.name _ slug fun member => ?_
      obtain ⟨row, isListed, own⟩ := List.mem_map.mp member
      have inFilter := (listed row).mp ⟨isListed, own⟩
      rw [nothing] at inFilter
      cases inFilter
    rw [nothing, absent]
    rfl
  · have isListed := (listed current).mpr (by rw [found]; exact List.mem_cons_self)
    rw [found, (rowFor_eq_some_iff Row.name _ (onePerSlug_current oneCurrent) slug current).mpr
      isListed]
    rfl

namespace CommandTables

variable (tables : CommandTables) (optOutSlugs : List String) (slug : String)

/-- The template that `expand` takes. -/
def expandedTemplate : Option String :=
  ((tables.userRow slug).map fun row => row.content.promptTpl).or
    (((tables.officialRow slug).map fun row => row.content.promptTpl).or
      ((tables.firstBundled slug).map BundledCommand.promptTpl))

theorem expand_eq {Raised : Type} (isPrintable : Char → Bool) (render : Render Raised)
    (args : List (String × Json)) :
    tables.expand isPrintable render slug args =
      match tables.expandedTemplate slug with
      | some template => (render template args).mapError .rendering
      | none => .error (.keyError (unknownSlug isPrintable slug)) := by
  have bundledRow : (tables.bundled.find? fun bundled => bundled.slug = slug) =
      tables.firstBundled slug := rfl
  unfold expand expandedTemplate
  rw [getCommand_eq tables.usersOne, getCommand_eq tables.officialsOne, bundledRow]
  change (do
    let row ←
      match tables.userRow slug with
      | some row => pure (some row)
      | none => Except.ok (tables.officialRow slug)
    _) = _
  cases tables.userRow slug with
  | some user => rfl
  | none =>
    cases tables.officialRow slug with
    | some official => rfl
    | none =>
      cases tables.firstBundled slug with
      | some bundled => rfl
      | none => rfl

/-- The entry is what the dictionary holds for the slug. -/
theorem effectiveEntry_eq :
    tables.effectiveEntry optOutSlugs slug =
      (mergeTiers commandResolver optOutSlugs (listOfficial tables.officials)
        (listOfficial tables.users) tables.bundled).lookup slug := by
  have layered := layered_values ResolvedCommand.slug ResolvedCommand.slug _
    (keyed_mergeTiers commandResolver ResolvedCommand.slug (fun _ => rfl) (fun _ => rfl)
      (fun _ => rfl) optOutSlugs (listOfficial tables.officials) (listOfficial tables.users)
      tables.bundled)
  have chosen := layered.chosen slug
  unfold effectiveEntry
  rw [← List.head?_filter]
  show ((listEffective tables optOutSlugs).filter fun entry => entry.slug = slug).head? = _
  refine (congrArg List.head? chosen).trans ?_
  cases (mergeTiers commandResolver optOutSlugs (listOfficial tables.officials)
    (listOfficial tables.users) tables.bundled).lookup slug with
  | none => rfl
  | some entry => rfl

/-- The template of the entry, tier by tier. -/
theorem effectiveEntry_promptTpl :
    (tables.effectiveEntry optOutSlugs slug).map ResolvedCommand.promptTpl =
      (((tables.userRow slug).filter fun _ =>
          !(tables.officialRow slug).any fun row => row.content.mandatory).map
        fun row => row.content.promptTpl).or
        ((((tables.officialRow slug).filter fun official =>
            !(!official.content.mandatory && optOutSlugs.contains slug)).map
          fun row => row.content.promptTpl).or
          ((tables.lastBundled slug).map BundledCommand.promptTpl)) := by
  rw [effectiveEntry_eq, lookup_mergeTiers_last commandResolver _ _ _ _
    (onePerSlug_current tables.officialsOne) (onePerSlug_current tables.usersOne)]
  simp only [Option.map_or, Option.map_map]
  rfl

theorem expandsListed_iff_template (Raised : Type) (isPrintable : Char → Bool) :
    tables.ExpandsListed Raised isPrintable optOutSlugs slug ↔
      tables.expandedTemplate slug =
        (tables.effectiveEntry optOutSlugs slug).map ResolvedCommand.promptTpl := by
  constructor
  · intro expands
    -- An environment that returns the template tells templates apart.
    have same := expands (fun template _ => .ok template) []
    rw [expand_eq] at same
    cases isExpanded : tables.expandedTemplate slug with
    | none =>
      cases isListed : tables.effectiveEntry optOutSlugs slug with
      | none => rfl
      | some entry =>
        rw [isExpanded, isListed] at same
        cases same
    | some template =>
      cases isListed : tables.effectiveEntry optOutSlugs slug with
      | none =>
        rw [isExpanded, isListed] at same
        cases same
      | some entry =>
        rw [isExpanded, isListed] at same
        exact congrArg some (Except.ok.inj same)
  · intro same render args
    rw [expand_eq, same]
    cases tables.effectiveEntry optOutSlugs slug with
    | none => rfl
    | some entry => rfl

/-- The two templates are one exactly where the choices of the tiers have the same outcome. -/
theorem templates_eq_iff :
    tables.expandedTemplate slug =
        (tables.effectiveEntry optOutSlugs slug).map ResolvedCommand.promptTpl ↔
      tables.ResolvesAlike optOutSlugs slug := by
  rw [effectiveEntry_promptTpl]
  unfold expandedTemplate ResolvesAlike
  cases tables.userRow slug with
  | some user =>
    cases tables.officialRow slug with
    | none => simp [Option.filter_some]
    | some official =>
      cases mandatory : official.content.mandatory with
      | false => simp [mandatory, Option.filter_some]
      | true => simp [mandatory, Option.filter_some, eq_comm]
  | none =>
    cases tables.officialRow slug with
    | none => simp
    | some official =>
      cases mandatory : official.content.mandatory with
      | true => simp [mandatory, Option.filter_some]
      | false =>
        by_cases optedOut : slug ∈ optOutSlugs
        · simp [mandatory, optedOut, Option.filter_some, eq_comm]
        · simp [mandatory, optedOut, Option.filter_some]

/-- `expand` renders the effective entry exactly where the templates agree on which the two
procedures choose differently. -/
theorem expandsListed_iff (Raised : Type) (isPrintable : Char → Bool) :
    tables.ExpandsListed Raised isPrintable optOutSlugs slug ↔
      tables.ResolvesAlike optOutSlugs slug :=
  (tables.expandsListed_iff_template optOutSlugs slug Raised isPrintable).trans
    (tables.templates_eq_iff optOutSlugs slug)

end CommandTables

/-- The user's command `deploy` under a mandatory official of that slug. -/
def deployCommands : CommandTables where
  officials := [⟨"deploy", 1, true, ⟨true, none, "Follow the checklist.", none, none, none⟩⟩]
  users := [⟨"deploy", 1, true, ⟨false, none, "Just push.", none, none, none⟩⟩]
  bundled := []
  officialsOne := List.pairwise_singleton ..
  usersOne := List.pairwise_singleton ..

theorem mandatory_command_is_not_expanded :
    ¬ deployCommands.ExpandsListed Empty (fun _ => true) [] "deploy" := by
  intro expands
  have same :=
    (deployCommands.expandsListed_iff_template [] "deploy" Empty fun _ => true).mp expands
  have alike : deployCommands.ResolvesAlike [] "deploy" :=
    (deployCommands.templates_eq_iff [] "deploy").mp same
  exact absurd (alike rfl) (by decide)

end LiteHorse.Repositories
