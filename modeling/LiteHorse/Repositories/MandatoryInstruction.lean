/-
This file is about mandatory instructions. An instruction is marked mandatory in two tiers:
an official row has a column for it, and a bundled file says it in its frontmatter, as the
safety baseline does. The resolver keeps the user's rows off the slugs of the mandatory
officials only, so a user's row, or an official that is not mandatory, replaces a mandatory
bundled instruction of the same slug.

`mandatoryKept_iff` says when a mandatory instruction stays in force.
-/

import LiteHorse.Repositories.Effective

namespace LiteHorse.Repositories

open Layers Python Versions

/-- What the frontmatter of a bundled instruction file says. -/
structure InstructionFrontmatter where
  slug : Option Json := none
  priority : Int := 100
  mandatory : Option Json := none

/-- The entry `load_bundled_instructions` makes of one file. -/
def loadBundledInstruction (isPrintable : Char → Bool) (stem : String)
    (frontmatter : InstructionFrontmatter) (body : String) : BundledInstruction where
  slug :=
    match frontmatter.slug with
    | some value => if value.truthy then value.toStr isPrintable else stem
    | none => stem
  body := body
  priority := frontmatter.priority
  mandatory :=
    match frontmatter.mandatory with
    | some value => value.truthy
    | none => false

/-- `safety-baseline.md`, up to the text of its rules. -/
def safetyBaseline (isPrintable : Char → Bool) (body : String) : BundledInstruction :=
  loadBundledInstruction isPrintable "safety-baseline"
    { slug := some (.str "safety-baseline"), priority := 10, mandatory := some (.bool true) } body

section Tiers

variable (optOutSlugs : List String) (officials users : List (Row String Instruction))
  (bundled : List BundledInstruction) (slug : String)

/-- The bundled or the official tier holds a mandatory instruction for the slug with this
body. -/
def HasMandatory (body : String) : Prop :=
  (∃ entry ∈ bundled, entry.slug = slug ∧ entry.mandatory = true ∧ entry.body = body) ∨
    ∃ row ∈ officials, row.name = slug ∧ row.content.mandatory = true ∧ row.content.body = body

/-- An entry in force: it is not the user's, and its body and flag are those of a mandatory
instruction. -/
def InForce (entry : ResolvedInstruction) : Prop :=
  entry.scope ≠ .user ∧ entry.mandatory = true ∧ HasMandatory officials bundled slug entry.body

/-- If the bundled or the official tier holds a mandatory instruction for the slug, the slug
has one entry and that is in force. -/
def MandatoryKept : Prop :=
  (∃ body, HasMandatory officials bundled slug body) →
    ∃ entry, (InstructionRepo.listEffective optOutSlugs officials users bundled).filter
        (fun entry => entry.slug = slug) = [entry] ∧ InForce officials bundled slug entry

/-- An official holds the slug as mandatory, or nothing above the bundled tier is laid over
it and the last bundled entry of the slug is a mandatory one. -/
def OutOfReach : Prop :=
  (∃ row ∈ officials, row.name = slug ∧ row.content.mandatory = true) ∨
    ((∀ row ∈ users, row.name ≠ slug) ∧ (∀ row ∈ officials, row.name = slug → slug ∈ optOutSlugs) ∧
      ∃ entry, rowFor BundledInstruction.slug bundled.reverse slug = some entry ∧
        entry.mandatory = true)

/-! ### The entry of one slug -/

/-- The entry the tiers give a slug: its official, its user row, its last bundled entry. -/
def entryFor (optedOut : Bool) (official user : Option (Row String Instruction))
    (last : Option BundledInstruction) : Option ResolvedInstruction :=
  ((user.filter fun _ => !official.any fun row => row.content.mandatory).map
    instructionResolver.ofUser).or
    (((official.filter fun row => !(!row.content.mandatory && optedOut)).map
      instructionResolver.ofOfficial).or (last.map instructionResolver.ofBundled))

theorem entryFor_none (optedOut : Bool) (user : Option (Row String Instruction))
    (last : Option BundledInstruction) :
    entryFor optedOut none user last =
      (user.map instructionResolver.ofUser).or (last.map instructionResolver.ofBundled) := by
  cases user <;> rfl

theorem entryFor_mandatory (optedOut : Bool) (row : Row String Instruction)
    (user : Option (Row String Instruction)) (last : Option BundledInstruction)
    (mandatory : row.content.mandatory = true) :
    entryFor optedOut (some row) user last = some (instructionResolver.ofOfficial row) := by
  cases user <;> simp [entryFor, mandatory, Option.filter_some]

theorem entryFor_optional (optedOut : Bool) (row : Row String Instruction)
    (user : Option (Row String Instruction)) (last : Option BundledInstruction)
    (optional : row.content.mandatory = false) :
    entryFor optedOut (some row) user last =
      (user.map instructionResolver.ofUser).or
        (if optedOut then last.map instructionResolver.ofBundled
          else some (instructionResolver.ofOfficial row)) := by
  cases user <;> cases optedOut <;> simp [entryFor, optional, Option.filter_some]

theorem entries_of_slug (officialsOne : OnePerSlug Row.name officials)
    (usersOne : OnePerSlug Row.name users) :
    (InstructionRepo.listEffective optOutSlugs officials users bundled).filter
        (fun entry => entry.slug = slug) =
      (entryFor (optOutSlugs.contains slug) (rowFor Row.name officials slug)
        (rowFor Row.name users slug)
        (rowFor BundledInstruction.slug bundled.reverse slug)).toList := by
  have layered := layered_values ResolvedInstruction.slug
    (fun entry => toLex (entry.priority, entry.slug)) _
    (keyed_mergeTiers instructionResolver ResolvedInstruction.slug (fun _ => rfl) (fun _ => rfl)
      (fun _ => rfl) optOutSlugs officials users bundled)
  have chosen := layered.chosen slug
  rw [lookup_mergeTiers_last instructionResolver optOutSlugs officials users bundled officialsOne
    usersOne] at chosen
  exact chosen

/-- Where the bundled tier decides, its last entry of the slug does. -/
theorem inForce_bundled_iff :
    (∃ entry, (rowFor BundledInstruction.slug bundled.reverse slug).map
        instructionResolver.ofBundled = some entry ∧ InForce officials bundled slug entry) ↔
      ∃ entry, rowFor BundledInstruction.slug bundled.reverse slug = some entry ∧
        entry.mandatory = true := by
  constructor
  · rintro ⟨_, found, _, mandatory, _⟩
    obtain ⟨last, isLast, rfl⟩ := Option.map_eq_some_iff.mp found
    exact ⟨last, isLast, mandatory⟩
  · rintro ⟨last, isLast, mandatory⟩
    have own : last.slug = slug := name_of_rowFor BundledInstruction.slug isLast
    have member : last ∈ bundled := List.mem_reverse.mp (List.mem_of_find?_eq_some isLast)
    refine ⟨instructionResolver.ofBundled last, ?_, nofun, mandatory, ?_⟩
    · rw [isLast]
      rfl
    · exact Or.inl ⟨last, member, own, mandatory, rfl⟩

theorem rowFor_eq_none_iff {Content : Type} (rows : List (Row String Content)) :
    rowFor Row.name rows slug = none ↔ ∀ row ∈ rows, row.name ≠ slug := by
  unfold rowFor
  simp [List.find?_eq_none]

/-- The user's row is not an entry in force. -/
theorem not_inForce_user (user : Row String Instruction) (below : Option ResolvedInstruction) :
    ¬ ∃ entry, ((some user).map instructionResolver.ofUser).or below = some entry ∧
      InForce officials bundled slug entry := by
  rintro ⟨entry, found, notUser, _⟩
  cases found
  exact notUser rfl

/-- Where no official holds the slug as mandatory, only the bundled tier can keep it. -/
theorem outOfReach_iff_bundled
    (noMandatory : ∀ row ∈ officials, row.name = slug → row.content.mandatory = false) :
    OutOfReach optOutSlugs officials users bundled slug ↔
      rowFor Row.name users slug = none ∧
        (∀ row ∈ officials, row.name = slug → slug ∈ optOutSlugs) ∧
          ∃ entry, rowFor BundledInstruction.slug bundled.reverse slug = some entry ∧
            entry.mandatory = true := by
  unfold OutOfReach
  rw [rowFor_eq_none_iff]
  refine or_iff_right ?_
  rintro ⟨row, member, own, mandatory⟩
  rw [noMandatory row member own] at mandatory
  cases mandatory

/-- The bundled tier decides once the user has no row and the officials are opted out. -/
theorem inForce_iff_outOfReach
    (noMandatory : ∀ row ∈ officials, row.name = slug → row.content.mandatory = false)
    (optedOut : ∀ row ∈ officials, row.name = slug → slug ∈ optOutSlugs) :
    (∃ entry, ((rowFor Row.name users slug).map instructionResolver.ofUser).or
        ((rowFor BundledInstruction.slug bundled.reverse slug).map
          instructionResolver.ofBundled) = some entry ∧ InForce officials bundled slug entry) ↔
      OutOfReach optOutSlugs officials users bundled slug := by
  rw [outOfReach_iff_bundled optOutSlugs officials users bundled slug noMandatory]
  cases user : rowFor Row.name users slug with
  | none =>
    rw [Option.map_none, Option.none_or, inForce_bundled_iff]
    exact ⟨fun last => ⟨rfl, optedOut, last⟩, fun ⟨_, _, last⟩ => last⟩
  | some row =>
    refine iff_of_false (not_inForce_user officials bundled slug row _) ?_
    rintro ⟨absent, _⟩
    cases absent

/-- A mandatory instruction of the bundled or the official tier stays in force exactly when
it is out of the reach of the user's rows and of officials that are not mandatory. -/
theorem mandatoryKept_iff (officialsOne : OnePerSlug Row.name officials)
    (usersOne : OnePerSlug Row.name users) :
    MandatoryKept optOutSlugs officials users bundled slug ↔
      ((∃ body, HasMandatory officials bundled slug body) →
        OutOfReach optOutSlugs officials users bundled slug) := by
  refine imp_congr_right fun _ => ?_
  rw [entries_of_slug optOutSlugs officials users bundled slug officialsOne usersOne]
  simp only [Option.toList_eq_singleton_iff]
  cases official : rowFor Row.name officials slug with
  | none =>
    have absent := (rowFor_eq_none_iff slug officials).mp official
    have decided := inForce_iff_outOfReach optOutSlugs officials users bundled slug
      (fun row member own => absurd own (absent row member))
      (fun row member own => absurd own (absent row member))
    rw [entryFor_none]
    exact decided
  | some row =>
    obtain ⟨member, own⟩ :=
      (rowFor_eq_some_iff Row.name officials officialsOne slug row).mp official
    have only : ∀ other ∈ officials, other.name = slug → other = row := by
      intro other otherMember otherOwn
      have found := (rowFor_eq_some_iff Row.name officials officialsOne slug other).mpr
        ⟨otherMember, otherOwn⟩
      exact Option.some.inj (found.symm.trans official)
    cases mandatory : row.content.mandatory with
    | true =>
      rw [entryFor_mandatory _ row _ _ mandatory]
      refine iff_of_true ⟨_, rfl, ?_, mandatory, ?_⟩ (Or.inl ⟨row, member, own, mandatory⟩)
      · intro isUser
        cases isUser
      · exact Or.inr ⟨row, member, own, mandatory, rfl⟩
    | false =>
      have noMandatory : ∀ other ∈ officials, other.name = slug →
          other.content.mandatory = false := by
        intro other otherMember otherOwn
        rw [only other otherMember otherOwn]
        exact mandatory
      rw [entryFor_optional _ row _ _ mandatory]
      by_cases optedOut : slug ∈ optOutSlugs
      · rw [if_pos (List.contains_iff_mem.mpr optedOut)]
        exact inForce_iff_outOfReach optOutSlugs officials users bundled slug noMandatory
          fun _ _ _ => optedOut
      · rw [if_neg fun contained => optedOut (List.contains_iff_mem.mp contained)]
        refine iff_of_false ?_ ?_
        · cases rowFor Row.name users slug with
          | none =>
            rintro ⟨_, found, _, flag, _⟩
            cases found
            exact absurd (mandatory.symm.trans flag) Bool.false_ne_true
          | some mine => exact not_inForce_user officials bundled slug mine _
        · rw [outOfReach_iff_bundled optOutSlugs officials users bundled slug noMandatory]
          rintro ⟨_, allOptedOut, _⟩
          exact optedOut (allOptedOut row member own)

end Tiers

/-- The row of a user for a slug. -/
def userInstruction (slug body : String) : Row String Instruction :=
  ⟨slug, 1, true, ⟨false, 100, body, none⟩⟩

/-- The safety baseline, which no official holds and the user has no row for. -/
theorem safetyBaseline_kept :
    MandatoryKept [] [] [userInstruction "style" "Be brief."]
      [safetyBaseline (fun _ => true) "# Safety baseline"] "safety-baseline" := by
  refine (mandatoryKept_iff [] [] [userInstruction "style" "Be brief."] _ "safety-baseline"
    List.nodup_nil (List.nodup_singleton "style")).mpr fun _ => Or.inr ⟨?_, nofun, _, rfl, rfl⟩
  intro row member
  rw [List.mem_singleton.mp member]
  decide

/-- A user's row called `safety-baseline` takes the place of the safety baseline. -/
theorem safetyBaseline_replaced_by_user :
    ¬ MandatoryKept [] [] [userInstruction "safety-baseline" "No rules."]
      [safetyBaseline (fun _ => true) "# Safety baseline"] "safety-baseline" := by
  intro kept
  obtain ⟨entry, found, notUser, _⟩ :=
    kept ⟨_, Or.inl ⟨_, List.mem_singleton_self _, rfl, rfl, rfl⟩⟩
  rw [entries_of_slug [] [] [userInstruction "safety-baseline" "No rules."] _ _ List.nodup_nil
    (List.nodup_singleton "safety-baseline")] at found
  cases found
  exact notUser rfl

end LiteHorse.Repositories
