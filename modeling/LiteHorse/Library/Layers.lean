/-
This file is about tables that are laid over one another: each layer is a list of rows with
at most one row for a name, the rows a layer keeps replace what the layers below have under
their names, and the merged entries are sorted.

The result is described by a rule that says, name by name, which entry is chosen. The file
proves that laying the layers over one another computes the rule that goes through them
from the top (`layered_overlays`), and that a rule has one sorted result, so the order the
rows are read in does not matter (`Layered.unique`).

The dictionary is Mathlib's `AList`. It does not keep the order in which names were first
inserted, and nothing here depends on that order.
-/

import LiteHorse.Library.Sorting
import Mathlib.Data.List.AList
import Mathlib.Data.List.Induction

namespace LiteHorse.Layers

open Sorting

variable {Name Entry Row : Type*} [DecidableEq Name]

/-- What is merged so far: one entry for a name. -/
abbrev Merged (Name Entry : Type*) := AList fun _ : Name => Entry

/-- Lay the rows that are kept over what is merged so far. -/
def overlay (name : Row → Name) (keep : Row → Bool) (resolve : Row → Entry)
    (merged : Merged Name Entry) (rows : List Row) : Merged Name Entry :=
  rows.foldl
    (fun merged row => if keep row then merged.insert (name row) (resolve row) else merged) merged

def values (merged : Merged Name Entry) : List Entry :=
  merged.entries.map Sigma.snd

/-- The row a layer has for a name. -/
def rowFor (name : Row → Name) (rows : List Row) (wanted : Name) : Option Row :=
  rows.find? fun row => name row = wanted

/-- The entries are the ones a rule chooses for each name, sorted by a key. -/
structure Layered {Order : Type*} [LinearOrder Order] (nameOf : Entry → Name)
    (sortKey : Entry → Order) (rule : Name → Option Entry) (entries : List Entry) : Prop where
  chosen : ∀ name, entries.filter (fun entry => nameOf entry = name) = (rule name).toList
  distinct : (entries.map nameOf).Nodup
  sorted : entries.Pairwise fun first second => sortKey first ≤ sortKey second

/-! ### Looking a name up -/

theorem rowFor_cons (name : Row → Name) (row : Row) (rows : List Row) (wanted : Name) :
    rowFor name (row :: rows) wanted =
      if name row = wanted then some row else rowFor name rows wanted := by
  unfold rowFor
  rw [List.find?_cons]
  by_cases own : name row = wanted
  · simp [own]
  · simp [own]

theorem rowFor_eq_none (name : Row → Name) (rows : List Row) (wanted : Name)
    (absent : wanted ∉ rows.map name) : rowFor name rows wanted = none := by
  refine List.find?_eq_none.mpr fun row member => ?_
  rw [decide_eq_true_eq]
  intro own
  exact absent (List.mem_map.mpr ⟨row, member, own⟩)

/-- A layer with at most one row for a name has the row that carries it. -/
theorem rowFor_eq_some_iff (name : Row → Name) (rows : List Row) (distinct : (rows.map name).Nodup)
    (wanted : Name) (row : Row) :
    rowFor name rows wanted = some row ↔ row ∈ rows ∧ name row = wanted := by
  constructor
  · intro found
    refine ⟨List.mem_of_find?_eq_some found, ?_⟩
    simpa using List.find?_some found
  · rintro ⟨member, own⟩
    cases found : rowFor name rows wanted with
    | none =>
      have absent := List.find?_eq_none.mp found row member
      exact absurd own (by simpa using absent)
    | some other =>
      have otherOwn : name other = wanted := by simpa using List.find?_some found
      have otherMember := List.mem_of_find?_eq_some found
      exact congrArg some
        (List.inj_on_of_nodup_map distinct otherMember member (otherOwn.trans own.symm))

theorem name_of_rowFor (name : Row → Name) {rows : List Row} {wanted : Name} {row : Row}
    (found : rowFor name rows wanted = some row) : name row = wanted := by
  simpa using List.find?_some found

/-- Only the rows of the name matter to a filter on its row. -/
theorem filter_rowFor_congr (name : Row → Name) (rows : List Row) (wanted : Name)
    {keep other : Row → Bool} (same : ∀ row, name row = wanted → keep row = other row) :
    (rowFor name rows wanted).filter keep = (rowFor name rows wanted).filter other := by
  cases found : rowFor name rows wanted with
  | none => rfl
  | some row => rw [Option.filter_some, Option.filter_some, same row (name_of_rowFor name found)]

theorem rowFor_congr_perm (name : Row → Name) {rows other : List Row} (perm : rows.Perm other)
    (distinct : (rows.map name).Nodup) (wanted : Name) :
    rowFor name rows wanted = rowFor name other wanted := by
  have otherDistinct := (perm.map name).nodup_iff.mp distinct
  refine Option.ext fun row => ?_
  rw [rowFor_eq_some_iff name rows distinct, rowFor_eq_some_iff name other otherDistinct,
    perm.mem_iff]

/-- After a layer, a name has the layer's own row if that is kept, and else what it had. -/
theorem lookup_overlay (name : Row → Name) (keep : Row → Bool) (resolve : Row → Entry)
    (merged : Merged Name Entry) (rows : List Row) (distinct : (rows.map name).Nodup)
    (wanted : Name) :
    (overlay name keep resolve merged rows).lookup wanted =
      (((rowFor name rows wanted).filter keep).map resolve).or (merged.lookup wanted) := by
  induction rows generalizing merged with
  | nil => rfl
  | cons row rest inductionHypothesis =>
    rw [List.map_cons, List.nodup_cons] at distinct
    have step := inductionHypothesis (if keep row then merged.insert (name row) (resolve row)
      else merged) distinct.2
    show (overlay name keep resolve _ rest).lookup wanted = _
    rw [step, rowFor_cons]
    by_cases own : name row = wanted
    · have absent : rowFor name rest wanted = none :=
        rowFor_eq_none name rest wanted (own ▸ distinct.1)
      rw [absent, if_pos own]
      cases kept : keep row with
      | true => simp [kept, own, Option.filter_some]
      | false => simp [kept, Option.filter_some]
    · rw [if_neg own]
      cases kept : keep row with
      | true => simp [AList.lookup_insert_ne (Ne.symm own)]
      | false => simp

/-- Where a layer has several rows for a name, the last one it keeps is the one that stays. -/
theorem lookup_overlay_last (name : Row → Name) (keep : Row → Bool) (resolve : Row → Entry)
    (merged : Merged Name Entry) (rows : List Row) (wanted : Name) :
    (overlay name keep resolve merged rows).lookup wanted =
      ((rowFor name (rows.filter keep).reverse wanted).map resolve).or (merged.lookup wanted) := by
  induction rows using List.reverseRecOn with
  | nil => rfl
  | append_singleton rows row inductionHypothesis =>
    have last : overlay name keep resolve merged (rows ++ [row]) =
        if keep row then (overlay name keep resolve merged rows).insert (name row) (resolve row)
        else overlay name keep resolve merged rows := by
      unfold overlay
      rw [List.foldl_append]
      rfl
    rw [last]
    cases kept : keep row with
    | false =>
      rw [List.filter_append, List.filter_cons_of_neg (by simp [kept]), List.filter_nil,
        List.append_nil]
      exact inductionHypothesis
    | true =>
      rw [List.filter_append, List.filter_cons_of_pos kept, List.filter_nil, List.reverse_append,
        List.reverse_singleton, List.singleton_append, rowFor_cons, if_pos rfl]
      by_cases own : name row = wanted
      · rw [if_pos own, ← own, AList.lookup_insert]
        rfl
      · rw [if_neg own, AList.lookup_insert_ne (Ne.symm own)]
        exact inductionHypothesis

/-! ### The merged entries -/

/-- Every entry is filed under its own name. -/
def Keyed (nameOf : Entry → Name) (merged : Merged Name Entry) : Prop :=
  ∀ wanted entry, merged.lookup wanted = some entry → nameOf entry = wanted

/-- What the rows of a layer resolve to has a property, and so has what was merged before. -/
theorem forall_lookup_overlay (property : Name → Entry → Prop) (name : Row → Name)
    (keep : Row → Bool) (resolve : Row → Entry) (merged : Merged Name Entry) (rows : List Row)
    (resolved : ∀ row, property (name row) (resolve row))
    (before : ∀ wanted entry, merged.lookup wanted = some entry → property wanted entry) :
    ∀ wanted entry, (overlay name keep resolve merged rows).lookup wanted = some entry →
      property wanted entry := by
  induction rows generalizing merged with
  | nil => exact before
  | cons row rest inductionHypothesis =>
    refine inductionHypothesis _ fun wanted entry found => ?_
    simp only at found
    split at found
    · by_cases own : wanted = name row
      · rw [own, AList.lookup_insert, Option.some.injEq] at found
        rw [own, ← found]
        exact resolved row
      · rw [AList.lookup_insert_ne own] at found
        exact before wanted entry found
    · exact before wanted entry found

theorem keyed_overlay (nameOf : Entry → Name) (name : Row → Name) (keep : Row → Bool)
    (resolve : Row → Entry) (merged : Merged Name Entry) (rows : List Row)
    (named : ∀ row, nameOf (resolve row) = name row) (keyed : Keyed nameOf merged) :
    Keyed nameOf (overlay name keep resolve merged rows) :=
  forall_lookup_overlay (fun wanted entry => nameOf entry = wanted) name keep resolve merged rows
    named keyed

theorem mem_values_iff (merged : Merged Name Entry) (entry : Entry) :
    entry ∈ values merged ↔ ∃ wanted, merged.lookup wanted = some entry := by
  unfold values
  rw [List.mem_map]
  constructor
  · rintro ⟨⟨wanted, value⟩, member, rfl⟩
    exact ⟨wanted, AList.mem_lookup_iff.mpr member⟩
  · rintro ⟨wanted, found⟩
    exact ⟨⟨wanted, entry⟩, AList.mem_lookup_iff.mp found, rfl⟩

theorem map_values (nameOf : Entry → Name) (merged : Merged Name Entry)
    (keyed : Keyed nameOf merged) : (values merged).map nameOf = merged.keys := by
  unfold values AList.keys List.keys
  rw [List.map_map]
  refine List.map_congr_left fun pair member => ?_
  exact keyed pair.1 pair.2 (AList.mem_lookup_iff.mpr member)

theorem distinct_values (nameOf : Entry → Name) (merged : Merged Name Entry)
    (keyed : Keyed nameOf merged) : ((values merged).map nameOf).Nodup := by
  rw [map_values nameOf merged keyed]
  exact merged.keys_nodup

/-- A list with distinct names has at most one entry of a name. -/
theorem filter_eq_toList (nameOf : Entry → Name) (entries : List Entry)
    (distinct : (entries.map nameOf).Nodup) (wanted : Name) (chosen : Option Entry)
    (iff : ∀ entry, (entry ∈ entries ∧ nameOf entry = wanted) ↔ chosen = some entry) :
    entries.filter (fun entry => nameOf entry = wanted) = chosen.toList := by
  have nodup : (entries.filter fun entry => nameOf entry = wanted).Nodup :=
    (List.Nodup.of_map nameOf distinct).filter _
  have sameMembers : ∀ entry, entry ∈ entries.filter (fun entry => nameOf entry = wanted) ↔
      chosen = some entry := by
    intro entry
    rw [List.mem_filter, decide_eq_true_eq]
    exact iff entry
  cases chosen with
  | none =>
    refine List.eq_nil_iff_forall_not_mem.mpr fun entry member => ?_
    cases (sameMembers entry).mp member
  | some entry =>
    refine List.perm_singleton.mp ?_
    refine (List.perm_ext_iff_of_nodup nodup (List.nodup_singleton entry)).mpr fun other => ?_
    rw [sameMembers, List.mem_singleton, Option.some.injEq]
    exact eq_comm

/-- What is merged and sorted is what looking each name up chooses. -/
theorem layered_values {Order : Type*} [LinearOrder Order] (nameOf : Entry → Name)
    (sortKey : Entry → Order) (merged : Merged Name Entry) (keyed : Keyed nameOf merged) :
    Layered nameOf sortKey merged.lookup (sortedBy sortKey (values merged)) where
  chosen wanted := by
    have distinct := ((sortedBy_perm sortKey (values merged)).map nameOf).nodup_iff.mpr
      (distinct_values nameOf merged keyed)
    refine filter_eq_toList nameOf _ distinct wanted _ fun entry => ?_
    rw [mem_sortedBy, mem_values_iff]
    constructor
    · rintro ⟨⟨filed, found⟩, own⟩
      rw [keyed filed entry found] at own
      exact own ▸ found
    · intro found
      exact ⟨⟨wanted, found⟩, keyed wanted entry found⟩
  distinct := ((sortedBy_perm sortKey (values merged)).map nameOf).nodup_iff.mpr
    (distinct_values nameOf merged keyed)
  sorted := sortedBy_pairwise sortKey (values merged)

theorem Layered.mem_iff {Order : Type*} [LinearOrder Order] {nameOf : Entry → Name}
    {sortKey : Entry → Order} {rule : Name → Option Entry} {entries : List Entry}
    (layered : Layered nameOf sortKey rule entries) (entry : Entry) :
    entry ∈ entries ↔ rule (nameOf entry) = some entry := by
  have inFilter : entry ∈ entries ↔
      entry ∈ entries.filter fun other => nameOf other = nameOf entry := by
    simp [List.mem_filter]
  rw [inFilter, layered.chosen (nameOf entry), Option.mem_toList]

/-- A rule has one sorted result, where the sort key tells names apart. -/
theorem Layered.unique {Order : Type*} [LinearOrder Order] {nameOf : Entry → Name}
    {sortKey : Entry → Order} {rule : Name → Option Entry} {entries other : List Entry}
    (telling : ∀ first second, sortKey first = sortKey second → nameOf first = nameOf second)
    (layered : Layered nameOf sortKey rule entries) (again : Layered nameOf sortKey rule other) :
    entries = other := by
  have perm : entries.Perm other := by
    refine (List.perm_ext_iff_of_nodup (List.Nodup.of_map nameOf layered.distinct)
      (List.Nodup.of_map nameOf again.distinct)).mpr fun entry => ?_
    rw [layered.mem_iff, again.mem_iff]
  refine eq_of_perm_of_sorted sortKey perm ?_ layered.sorted again.sorted
  have distinct := again.distinct
  unfold List.Nodup at distinct ⊢
  rw [List.pairwise_map] at distinct ⊢
  exact distinct.imp fun different same => different (telling _ _ same)

theorem Layered.congr {Order : Type*} [LinearOrder Order] {nameOf : Entry → Name}
    {sortKey : Entry → Order} {rule other : Name → Option Entry} {entries : List Entry}
    (same : ∀ name, rule name = other name) (layered : Layered nameOf sortKey rule entries) :
    Layered nameOf sortKey other entries := by
  have equal : rule = other := funext same
  exact equal ▸ layered

end LiteHorse.Layers
