/-
This file is about JSON values as dictionaries, where the order of the keys does not matter: what
`json.dumps` with `sort_keys` writes, and what comes back from it.

Two dictionaries are equal where they are the same with all keys sorted (`Same`). The main result
is `same_rejoin_iff`: a value that is written with sorted keys and read comes back as an equal
one exactly where no text inside, and no key, has a high surrogate directly before a low one. Texts
that differ in such pairs only have the same literal (`dumpsSpaced_mapTexts`).
-/

import LiteHorse.Library.JsonSpaced
import LiteHorse.Library.Sorting
import Mathlib.Data.List.Lex

namespace LiteHorse.JsonTexts

open Sorting

variable {Finite : Type}

/-! ### Sorting the keys -/

mutual

/-- The value with the keys of every object in ascending order. -/
def Json.sortKeys : Json Finite → Json Finite
  | .null => .null
  | .bool value => .bool value
  | .int value => .int value
  | .float value => .float value
  | .str value => .str value
  | .array items => .array (sortItems items)
  | .object fields => .object (sortedBy Prod.fst (sortFields fields))

def sortItems : List (Json Finite) → List (Json Finite)
  | [] => []
  | item :: rest => item.sortKeys :: sortItems rest

def sortFields : List (Text × Json Finite) → List (Text × Json Finite)
  | [] => []
  | (key, value) :: rest => (key, value.sortKeys) :: sortFields rest

end

/-- Two values are equal, whatever the order of their keys. -/
def Json.Same (first second : Json Finite) : Prop := first.sortKeys = second.sortKeys

def sortField (field : Text × Json Finite) : Text × Json Finite :=
  (field.1, field.2.sortKeys)

theorem sortItems_eq (items : List (Json Finite)) :
    sortItems items = items.map Json.sortKeys := by
  induction items with
  | nil => rfl
  | cons item items inductionHypothesis => rw [sortItems, inductionHypothesis, List.map_cons]

theorem sortFields_eq (fields : List (Text × Json Finite)) :
    sortFields fields = fields.map sortField := by
  induction fields with
  | nil => rfl
  | cons field fields inductionHypothesis =>
    rw [sortFields, inductionHypothesis, List.map_cons]
    rfl

theorem map_fst_sortFields (fields : List (Text × Json Finite)) :
    (sortFields fields).map Prod.fst = fields.map Prod.fst := by
  rw [sortFields_eq, List.map_map]
  rfl

theorem mem_sorted {fields : List (Text × Json Finite)} {written : Text × Json Finite} :
    written ∈ sortedBy Prod.fst (sortFields fields) ↔
      ∃ field ∈ fields, sortField field = written := by
  rw [mem_sortedBy, sortFields_eq, List.mem_map]

theorem forall_mem_sorted {fields : List (Text × Json Finite)}
    {property : Text × Json Finite → Prop} :
    (∀ written ∈ sortedBy Prod.fst (sortFields fields), property written) ↔
      ∀ field ∈ fields, property (sortField field) := by
  constructor
  · intro holds field member
    exact holds _ (mem_sorted.mpr ⟨field, member, rfl⟩)
  · intro holds written member
    obtain ⟨field, isField, rfl⟩ := mem_sorted.mp member
    exact holds field isField

theorem sortKeys_sortKeys (value : Json Finite) : value.sortKeys.sortKeys = value.sortKeys := by
  induction value using Json.induction with
  | null => rfl
  | bool value => rfl
  | int value => rfl
  | float value => rfl
  | str value => rfl
  | array items inductionHypothesis =>
    rw [Json.sortKeys, Json.sortKeys, sortItems_eq, sortItems_eq, List.map_map]
    exact congrArg Json.array (List.map_congr_left inductionHypothesis)
  | object fields inductionHypothesis =>
    have kept : (sortedBy Prod.fst (sortFields fields)).map sortField =
        sortedBy Prod.fst (sortFields fields) := by
      refine (List.map_congr_left fun written member => ?_).trans (List.map_id _)
      obtain ⟨field, isField, rfl⟩ := mem_sorted.mp member
      exact congrArg (Prod.mk field.1) (inductionHypothesis field isField)
    rw [Json.sortKeys, Json.sortKeys, sortFields_eq (sortedBy _ _), kept, sortedBy_sortedBy]

theorem depth_sortKeys (value : Json Finite) : value.sortKeys.depth = value.depth := by
  induction value using Json.induction with
  | null => rfl
  | bool value => rfl
  | int value => rfl
  | float value => rfl
  | str value => rfl
  | array items inductionHypothesis =>
    refine congrArg (· + 1) (eq_of_forall_ge_iff fun limit => ?_)
    rw [depthItems_le_iff, depthItems_le_iff, sortItems_eq, List.forall_mem_map]
    exact forall₂_congr fun item member => by rw [inductionHypothesis item member]
  | object fields inductionHypothesis =>
    refine congrArg (· + 1) (eq_of_forall_ge_iff fun limit => ?_)
    rw [depthFields_le_iff, depthFields_le_iff, forall_mem_sorted]
    exact forall₂_congr fun field member => by rw [sortField, inductionHypothesis field member]

/-- A property that does not look at the order of the keys holds everywhere in the sorted value
where it holds everywhere in the value. -/
theorem everywhere_sortKeys {property : Json Finite → Prop}
    (unordered : ∀ value : Json Finite, property value.sortKeys ↔ property value)
    (value : Json Finite) : value.sortKeys.Everywhere property ↔ value.Everywhere property := by
  induction value using Json.induction with
  | null => rfl
  | bool value => rfl
  | int value => rfl
  | float value => rfl
  | str value => rfl
  | array items inductionHypothesis =>
    refine and_congr (unordered (.array items)) ?_
    rw [everywhereItems_iff, everywhereItems_iff, sortItems_eq, List.forall_mem_map]
    exact forall₂_congr inductionHypothesis
  | object fields inductionHypothesis =>
    refine and_congr (unordered (.object fields)) ?_
    rw [everywhereFields_iff, everywhereFields_iff, forall_mem_sorted]
    exact forall₂_congr inductionHypothesis

theorem fewDigits_sortKeys {maxDigits : Nat} (value : Json Finite) :
    FewDigits maxDigits value.sortKeys ↔ FewDigits maxDigits value := by
  cases value <;> rfl

/-! ### Dictionaries -/

/-- No key twice. -/
def DistinctKeys : Json Finite → Prop
  | .object fields => (fields.map Prod.fst).Nodup
  | .null | .bool _ | .int _ | .float _ | .str _ | .array _ => True

/-- No text and no key with a split pair. -/
def Unsplit : Json Finite → Prop
  | .str value => NoSplitPair value
  | .object fields => ∀ field ∈ fields, NoSplitPair field.1
  | .null | .bool _ | .int _ | .float _ | .array _ => True

theorem distinctKeys_sortKeys (value : Json Finite) :
    DistinctKeys value.sortKeys ↔ DistinctKeys value := by
  cases value with
  | object fields =>
    show ((sortedBy Prod.fst (sortFields fields)).map Prod.fst).Nodup ↔ _
    rw [((sortedBy_perm Prod.fst (sortFields fields)).map Prod.fst).nodup_iff, map_fst_sortFields]
    rfl
  | _ => rfl

theorem unsplit_sortKeys (value : Json Finite) : Unsplit value.sortKeys ↔ Unsplit value := by
  cases value with
  | object fields => exact forall_mem_sorted
  | _ => rfl

theorem lookup_eq_some {fields : List (Text × Json Finite)}
    (distinct : (fields.map Prod.fst).Nodup) {key : Text} {value : Json Finite} :
    fields.lookup key = some value ↔ (key, value) ∈ fields := by
  induction fields with
  | nil => simp
  | cons field fields inductionHypothesis =>
    obtain ⟨other, first⟩ := field
    rw [List.map_cons, List.nodup_cons] at distinct
    rw [List.lookup_cons, List.mem_cons, Prod.mk.injEq]
    by_cases same : key = other
    · subst same
      have gone : (key, value) ∉ fields := fun member =>
        distinct.1 (List.mem_map.mpr ⟨(key, value), member, rfl⟩)
      rw [beq_self_eq_true]
      simp only [gone, or_false, true_and, Option.some.injEq]
      exact eq_comm
    · rw [beq_eq_false_iff_ne.mpr same]
      simp only [same, false_and, false_or]
      exact inductionHypothesis distinct.2

theorem lookup_of_perm {first second : List (Text × Json Finite)} (perm : first.Perm second)
    (distinct : (second.map Prod.fst).Nodup) (key : Text) :
    first.lookup key = second.lookup key := by
  ext value
  rw [lookup_eq_some distinct, lookup_eq_some ((perm.map Prod.fst).nodup_iff.mpr distinct),
    perm.mem_iff]

theorem lookup_map {view : Json Finite → Json Finite} (fields : List (Text × Json Finite))
    (key : Text) :
    (fields.map fun field => (field.1, view field.2)).lookup key =
      (fields.lookup key).map view := by
  induction fields with
  | nil => rfl
  | cons field fields inductionHypothesis =>
    rw [List.map_cons, List.lookup_cons, List.lookup_cons, inductionHypothesis]
    cases key == field.1 with
    | true => rfl
    | false => rfl

/-! ### What comes back -/

theorem mem_foldl_setField {before fields : List (Text × Json Finite)}
    {kept : Text × Json Finite}
    (member : kept ∈ fields.foldl (fun fields field => setField fields field.1 field.2) before) :
    kept ∈ before ∨ kept ∈ fields := by
  induction fields generalizing before with
  | nil => exact Or.inl member
  | cons field fields inductionHypothesis =>
    rcases inductionHypothesis member with inFirst | inRest
    · change kept ∈ setField before field.1 field.2 at inFirst
      rw [setField] at inFirst
      split at inFirst
      · obtain ⟨other, isOther, isKept⟩ := List.mem_map.mp inFirst
        split at isKept
        · exact Or.inr (isKept ▸ List.mem_cons_self)
        · exact Or.inl (isKept ▸ isOther)
      · rcases List.mem_append.mp inFirst with inBefore | isLast
        · exact Or.inl inBefore
        · exact Or.inr (List.mem_singleton.mp isLast ▸ List.mem_cons_self)
    · exact Or.inr (List.mem_cons_of_mem field inRest)

/-- What is read back has no split pair. -/
theorem unsplit_rejoin (value : Json Finite) : value.rejoin.Everywhere Unsplit := by
  induction value using Json.induction with
  | null => trivial
  | bool value => trivial
  | int value => trivial
  | float value => trivial
  | str value => exact noSplitPair_rejoinText value
  | array items inductionHypothesis =>
    refine ⟨trivial, everywhereItems_iff.mpr ?_⟩
    rw [rejoinItems_eq, List.forall_mem_map]
    exact inductionHypothesis
  | object fields inductionHypothesis =>
    have inside : ∀ kept ∈ (rejoinFields fields).foldl
        (fun fields field => setField fields field.1 field.2) [],
        NoSplitPair kept.1 ∧ kept.2.Everywhere Unsplit := by
      intro kept member
      rcases mem_foldl_setField member with none | member
      · cases none
      · rw [rejoinFields_eq] at member
        obtain ⟨field, isField, rfl⟩ := List.mem_map.mp member
        exact ⟨noSplitPair_rejoinText field.1, inductionHypothesis field isField⟩
    exact ⟨fun kept member => (inside kept member).1,
      everywhereFields_iff.mpr fun kept member => (inside kept member).2⟩

theorem objectOf_distinct {fields : List (Text × Json Finite)}
    (distinct : (fields.map Prod.fst).Nodup) : objectOf fields = .object fields :=
  congrArg Json.object (foldl_setField [] fields distinct)

theorem rejoin_eq_self {value : Json Finite} (distinct : value.Everywhere DistinctKeys)
    (unsplit : value.Everywhere Unsplit) : value.rejoin = value := by
  induction value using Json.induction with
  | null => rfl
  | bool value => rfl
  | int value => rfl
  | float value => rfl
  | str value => exact congrArg Json.str (rejoinText_eq_self_iff.mpr unsplit)
  | array items inductionHypothesis =>
    have distinctInside := everywhereItems_iff.mp distinct.2
    have unsplitInside := everywhereItems_iff.mp unsplit.2
    rw [Json.rejoin, rejoinItems_eq]
    refine congrArg Json.array ((List.map_congr_left fun item member => ?_).trans (List.map_id _))
    exact inductionHypothesis item member (distinctInside item member) (unsplitInside item member)
  | object fields inductionHypothesis =>
    have distinctInside := everywhereFields_iff.mp distinct.2
    have unsplitInside := everywhereFields_iff.mp unsplit.2
    have kept : fields.map rejoinField = fields := by
      refine (List.map_congr_left fun field member => ?_).trans (List.map_id _)
      rw [rejoinField, rejoinText_eq_self_iff.mpr (unsplit.1 field member),
        inductionHypothesis field member (distinctInside field member)
          (unsplitInside field member)]
      rfl
    rw [Json.rejoin, rejoinFields_eq, kept]
    exact objectOf_distinct distinct.1

/-- A dictionary comes back from its text with sorted keys exactly where nothing inside has a
split pair. -/
theorem same_rejoin_iff {value : Json Finite} (distinct : value.Everywhere DistinctKeys) :
    value.sortKeys.rejoin.Same value ↔ value.Everywhere Unsplit := by
  constructor
  · intro same
    have back := (everywhere_sortKeys unsplit_sortKeys _).mpr (unsplit_rejoin value.sortKeys)
    rw [show value.sortKeys.rejoin.sortKeys = value.sortKeys from same] at back
    exact (everywhere_sortKeys unsplit_sortKeys value).mp back
  · intro unsplit
    rw [Json.Same, rejoin_eq_self ((everywhere_sortKeys distinctKeys_sortKeys value).mpr distinct)
      ((everywhere_sortKeys unsplit_sortKeys value).mpr unsplit), sortKeys_sortKeys]

/-- What is found under a key in the dictionary that comes back. -/
theorem lookup_rejoin {fields : List (Text × Json Finite)}
    (distinct : (fields.map Prod.fst).Nodup) (unsplit : ∀ field ∈ fields, NoSplitPair field.1) :
    ∃ back, (Json.object fields).sortKeys.rejoin = .object back ∧
      ∀ key, back.lookup key = (fields.lookup key).map fun value => value.sortKeys.rejoin := by
  let view : Json Finite → Json Finite := fun value => value.sortKeys.rejoin
  have areBack : (sortedBy Prod.fst (sortFields fields)).map rejoinField =
      (sortedBy Prod.fst (sortFields fields)).map fun field => (field.1, field.2.rejoin) := by
    refine List.map_congr_left fun written member => ?_
    obtain ⟨field, isField, rfl⟩ := mem_sorted.mp member
    exact congrArg (fun key => (key, field.2.sortKeys.rejoin))
      (rejoinText_eq_self_iff.mpr (unsplit field isField))
  have perm : ((sortedBy Prod.fst (sortFields fields)).map fun field =>
      (field.1, field.2.rejoin)).Perm (fields.map fun field => (field.1, view field.2)) := by
    have sorted := (sortedBy_perm Prod.fst (sortFields fields)).map
      fun field => (field.1, field.2.rejoin)
    rw [sortFields_eq, List.map_map] at sorted
    rw [sortFields_eq]
    exact sorted
  have keys : ((fields.map fun field => (field.1, view field.2)).map Prod.fst).Nodup := by
    rw [List.map_map]
    exact distinct
  refine ⟨_, ?_, fun key => (lookup_of_perm perm keys key).trans (lookup_map fields key)⟩
  rw [Json.sortKeys, Json.rejoin, rejoinFields_eq, areBack]
  exact objectOf_distinct ((perm.map Prod.fst).nodup_iff.mpr keys)

/-! ### Texts with the same literal -/

section MapTexts

variable (view : Text → Text)

mutual

/-- The value with its texts changed, the keys apart. -/
def Json.mapTexts : Json Finite → Json Finite
  | .null => .null
  | .bool value => .bool value
  | .int value => .int value
  | .float value => .float value
  | .str value => .str (view value)
  | .array items => .array (mapTextsItems items)
  | .object fields => .object (mapTextsFields fields)

def mapTextsItems : List (Json Finite) → List (Json Finite)
  | [] => []
  | item :: rest => item.mapTexts :: mapTextsItems rest

def mapTextsFields : List (Text × Json Finite) → List (Text × Json Finite)
  | [] => []
  | (key, value) :: rest => (key, value.mapTexts) :: mapTextsFields rest

end

def mapTextsField (field : Text × Json Finite) : Text × Json Finite :=
  (field.1, field.2.mapTexts view)

theorem mapTextsItems_eq (items : List (Json Finite)) :
    mapTextsItems view items = items.map (Json.mapTexts view) := by
  induction items with
  | nil => rfl
  | cons item items inductionHypothesis =>
    rw [mapTextsItems, inductionHypothesis, List.map_cons]

theorem mapTextsFields_eq (fields : List (Text × Json Finite)) :
    mapTextsFields view fields = fields.map (mapTextsField view) := by
  induction fields with
  | nil => rfl
  | cons field fields inductionHypothesis =>
    rw [mapTextsFields, inductionHypothesis, List.map_cons]
    rfl

theorem sortKeys_mapTexts (value : Json Finite) :
    (value.mapTexts view).sortKeys = value.sortKeys.mapTexts view := by
  induction value using Json.induction with
  | null => rfl
  | bool value => rfl
  | int value => rfl
  | float value => rfl
  | str value => rfl
  | array items inductionHypothesis =>
    rw [Json.mapTexts, Json.sortKeys, Json.sortKeys, Json.mapTexts, mapTextsItems_eq, sortItems_eq,
      sortItems_eq, mapTextsItems_eq, List.map_map, List.map_map]
    exact congrArg Json.array (List.map_congr_left inductionHypothesis)
  | object fields inductionHypothesis =>
    have fieldwise : (fields.map (mapTextsField view)).map sortField =
        (fields.map sortField).map (mapTextsField view) := by
      rw [List.map_map, List.map_map]
      exact List.map_congr_left fun field member =>
        congrArg (Prod.mk field.1) (inductionHypothesis field member)
    rw [Json.mapTexts, Json.sortKeys, Json.sortKeys, Json.mapTexts, mapTextsFields_eq,
      sortFields_eq, sortFields_eq, mapTextsFields_eq, fieldwise]
    exact congrArg Json.object
      (map_sortedBy Prod.fst Prod.fst (mapTextsField view) _ fun _ _ => rfl).symm

/-- Where the changed texts have the literals of the old ones, the value is written as before. -/
theorem dumpsSpaced_mapTexts (format : FloatFormat Finite)
    (sameLiteral : ∀ value, quote (view value) = quote value) (value : Json Finite) :
    (value.mapTexts view).dumpsSpaced format = value.dumpsSpaced format := by
  induction value using Json.induction with
  | null => rfl
  | bool value => rfl
  | int value => rfl
  | float value => rfl
  | str value => exact sameLiteral value
  | array items inductionHypothesis =>
    rw [Json.mapTexts, Json.dumpsSpaced, Json.dumpsSpaced, mapTextsItems_eq, spacedItems_eq,
      spacedItems_eq, List.map_map]
    exact congrArg (fun texts => openBracket :: spacedText closeBracket texts)
      (List.map_congr_left inductionHypothesis)
  | object fields inductionHypothesis =>
    rw [Json.mapTexts, Json.dumpsSpaced, Json.dumpsSpaced, mapTextsFields_eq, spacedFields_eq,
      spacedFields_eq, List.map_map]
    exact congrArg (fun texts => openBrace :: spacedText closeBrace texts)
      (List.map_congr_left fun field member => congrArg
        (fun written => quote field.1 ++ colon :: blank :: written)
        (inductionHypothesis field member))

end MapTexts

end LiteHorse.JsonTexts
