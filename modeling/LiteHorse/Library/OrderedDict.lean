/-
This file is about a dictionary that keeps the order of its items and takes an item out at
the front, puts it in at the back or moves it there, as a cache with a least recently used
item does. That no key is there twice is a field of the dictionary.

The lemmas say what an operation does to the list of items, up to the order where the order
does not matter: an item leaves it, an item joins it, or the same items stay.
-/

import Mathlib.Data.Finset.Dedup
import Mathlib.Data.Finset.Card
import Mathlib.Data.List.Perm.Basic
import Mathlib.Data.List.Nodup
import Mathlib.Tactic.Common

namespace LiteHorse.OrderedDicts

/-- A dictionary, from the item at its front to the one at its back. -/
structure OrderedDict (Key Value : Type*) where
  items : List (Key × Value)
  distinct : (items.map Prod.fst).Nodup

namespace OrderedDict

variable {Key Value : Type*}

def empty : OrderedDict Key Value where
  items := []
  distinct := List.nodup_nil

def length (dict : OrderedDict Key Value) : Nat := dict.items.length

/-- `popitem(last=False)` -/
def popFirst (dict : OrderedDict Key Value) : Option ((Key × Value) × OrderedDict Key Value) :=
  match found : dict.items with
  | [] => none
  | first :: rest =>
    some (first, ⟨rest, by
      have distinct := dict.distinct
      rw [found] at distinct
      exact distinct.of_cons⟩)

/-- The items whose keys meet the condition. -/
def keep (dict : OrderedDict Key Value) (condition : Key → Bool) : OrderedDict Key Value where
  items := dict.items.filter fun item => condition item.1
  distinct := dict.distinct.sublist (List.filter_sublist.map Prod.fst)

variable {dict : OrderedDict Key Value}

theorem exists_popFirst (nonempty : dict.items ≠ []) :
    ∃ first rest, dict.popFirst = some (first, rest) := by
  unfold popFirst
  split
  · next empty => exact absurd empty nonempty
  · exact ⟨_, _, rfl⟩

/-- The first item leaves the list. -/
theorem items_of_popFirst {first : Key × Value} {rest : OrderedDict Key Value}
    (popped : dict.popFirst = some (first, rest)) : dict.items = first :: rest.items := by
  unfold popFirst at popped
  split at popped
  · cases popped
  · next nonempty =>
    cases popped
    exact nonempty

/-- The items that meet a condition and those that do not are all the items. -/
theorem perm_keep (dict : OrderedDict Key Value) (condition : Key → Bool) :
    ((dict.keep condition).items ++ (dict.keep fun key => !condition key).items).Perm
      dict.items :=
  List.filter_append_perm _ _

variable [DecidableEq Key]

def get (dict : OrderedDict Key Value) (key : Key) : Option Value := dict.items.lookup key

/-- `pop(key, None)` -/
def erase (dict : OrderedDict Key Value) (key : Key) : OrderedDict Key Value :=
  dict.keep fun other => decide (other ≠ key)

/-- `dict[key] = value` and `move_to_end(key)`. -/
def setLast (dict : OrderedDict Key Value) (key : Key) (value : Value) :
    OrderedDict Key Value where
  items := (dict.erase key).items ++ [(key, value)]
  distinct := by
    rw [List.map_append, List.nodup_append]
    refine ⟨(dict.erase key).distinct, List.nodup_singleton key, ?_⟩
    intro other member same isKey isLast
    rw [List.map_singleton, List.mem_singleton] at isKey
    obtain ⟨item, itemMember, rfl⟩ := List.mem_map.mp member
    have differs := (List.mem_filter.mp itemMember).2
    exact of_decide_eq_true differs (isLast.trans isKey)

/-- `move_to_end(key)` of a key that is there. -/
def moveToEnd (dict : OrderedDict Key Value) (key : Key) : OrderedDict Key Value :=
  match dict.get key with
  | some value => dict.setLast key value
  | none => dict

variable {key : Key} {value : Value}

theorem mem_iff_get : (key, value) ∈ dict.items ↔ dict.get key = some value := by
  obtain ⟨items, distinct⟩ := dict
  show _ ↔ items.lookup key = some value
  induction items with
  | nil =>
    refine iff_of_false List.not_mem_nil fun found => ?_
    cases found
  | cons item items inductionHypothesis =>
    obtain ⟨fresh, rest⟩ := List.nodup_cons.mp distinct
    rw [List.lookup_cons, List.mem_cons]
    by_cases same : key = item.1
    · subst same
      rw [beq_self_eq_true]
      constructor
      · rintro (isHead | later)
        · exact congrArg some (congrArg Prod.snd isHead).symm
        · exact absurd (List.mem_map_of_mem later) fresh
      · intro isValue
        exact Or.inl (Prod.ext rfl (Option.some.inj isValue).symm)
    · rw [beq_eq_false_iff_ne.mpr same, ← inductionHypothesis rest]
      exact or_iff_right fun isHead => same (congrArg Prod.fst isHead)

theorem get_eq_none_iff : dict.get key = none ↔ key ∉ dict.items.map Prod.fst := by
  rw [Option.eq_none_iff_forall_ne_some, List.mem_map]
  constructor
  · rintro missing ⟨⟨other, value⟩, member, rfl⟩
    exact missing value (mem_iff_get.mp member)
  · intro missing value found
    exact missing ⟨(key, value), mem_iff_get.mpr found, rfl⟩

theorem mem_erase_iff {item : Key × Value} :
    item ∈ (dict.erase key).items ↔ item ∈ dict.items ∧ item.1 ≠ key := by
  rw [erase, keep, List.mem_filter, decide_eq_true_eq]

theorem get_keep (condition : Key → Bool) :
    (dict.keep condition).get key = if condition key then dict.get key else none := by
  refine Option.ext fun value => ?_
  rw [← mem_iff_get, keep, List.mem_filter, mem_iff_get]
  split
  next met => exact and_iff_left met
  next unmet => exact iff_of_false (fun both => unmet both.2) (Option.not_mem_none value)

theorem get_setLast (key other : Key) (value : Value) :
    (dict.setLast key value).get other = if other = key then some value else dict.get other := by
  refine Option.ext fun found => ?_
  rw [← mem_iff_get, setLast, List.mem_append, List.mem_singleton, mem_erase_iff, mem_iff_get]
  split
  next same =>
    subst same
    rw [Prod.mk.injEq, Option.some.injEq]
    exact ⟨fun found => (found.resolve_left fun kept => kept.2 rfl).2.symm,
      fun isValue => Or.inr ⟨rfl, isValue.symm⟩⟩
  next differs =>
    rw [Prod.mk.injEq]
    exact ⟨fun found => (found.resolve_right fun isLast => differs isLast.1).1,
      fun found => Or.inl ⟨found, differs⟩⟩

/-- A key that is not there is not taken out. -/
theorem items_erase_of_get_none (missing : dict.get key = none) :
    (dict.erase key).items = dict.items := by
  refine List.filter_eq_self.mpr fun item member => decide_eq_true fun same => ?_
  exact get_eq_none_iff.mp missing (same ▸ List.mem_map_of_mem member)

/-- The item of a key leaves the list. -/
theorem perm_erase (found : dict.get key = some value) :
    dict.items.Perm ((key, value) :: (dict.erase key).items) := by
  have distinctItems : dict.items.Nodup := List.Nodup.of_map Prod.fst dict.distinct
  refine (List.perm_ext_iff_of_nodup distinctItems ?_).mpr fun item => ?_
  · refine List.nodup_cons.mpr ⟨fun member => (mem_erase_iff.mp member).2 rfl, ?_⟩
    exact List.Nodup.of_map Prod.fst (dict.erase key).distinct
  · rw [List.mem_cons, mem_erase_iff]
    constructor
    · intro member
      by_cases same : item.1 = key
      · obtain ⟨_, other⟩ := item
        subst same
        rw [mem_iff_get, found] at member
        exact Or.inl (Prod.ext rfl (Option.some.inj member).symm)
      · exact Or.inr ⟨member, same⟩
    · rintro (rfl | ⟨member, _⟩)
      · exact mem_iff_get.mpr found
      · exact member

/-- The moved item stays. -/
theorem perm_moveToEnd (dict : OrderedDict Key Value) (key : Key) :
    (dict.moveToEnd key).items.Perm dict.items := by
  unfold moveToEnd
  cases found : dict.get key with
  | none => exact List.Perm.refl _
  | some value => exact (List.perm_append_singleton _ _).trans (perm_erase found).symm

theorem items_moveToEnd (found : dict.get key = some value) :
    (dict.moveToEnd key).items = (dict.erase key).items ++ [(key, value)] := by
  rw [moveToEnd, found]
  rfl

end OrderedDict

/-! ### What a bounded cache keeps of its old items

A cache that holds a number of items at most, and gives up the one at its front first, has
its old items at the front and the ones used since at the back. Of the old ones it keeps the
last, as many as there is room for beside the keys used. -/

section Remaining

variable {Key Value : Type*} [DecidableEq Key] {room : Nat} {items : List (Key × Value)}
  {used : List Key} {key : Key}

/-- The items of a list that are not under one of the keys. -/
def unused (items : List (Key × Value)) (used : List Key) : List (Key × Value) :=
  items.filter fun item => decide (item.1 ∉ used)

/-- What is left of the old items once the keys have been used. -/
def remaining (room : Nat) (items : List (Key × Value)) (used : List Key) : List (Key × Value) :=
  (unused items used).drop ((unused items used).length - (room - used.toFinset.card))

theorem unused_concat (items : List (Key × Value)) (used : List Key) (key : Key) :
    unused items (used ++ [key]) =
      (unused items used).filter fun item => decide (item.1 ≠ key) := by
  rw [unused, unused, List.filter_filter]
  refine List.filter_congr fun item _ => ?_
  rw [← Bool.decide_and]
  refine decide_eq_decide.mpr ?_
  rw [List.mem_append, List.mem_singleton, not_or, and_comm]

theorem remaining_suffix (room : Nat) (items : List (Key × Value)) (used : List Key) :
    remaining room items used <:+ unused items used :=
  List.drop_suffix _ _

theorem length_remaining (room : Nat) (items : List (Key × Value)) (used : List Key) :
    (remaining room items used).length =
      min (unused items used).length (room - used.toFinset.card) := by
  rw [remaining, List.length_drop]
  omega

/-- The length tells which part of the old items remains. -/
theorem eq_remaining {old : List (Key × Value)} (suffix : old <:+ unused items used)
    (length : old.length = min (unused items used).length (room - used.toFinset.card)) :
    remaining room items used = old := by
  obtain ⟨start, isStart⟩ := suffix
  have lengths := congrArg List.length isStart
  rw [List.length_append] at lengths
  rw [remaining, ← isStart, List.length_append]
  have dropped : start.length + old.length - (room - used.toFinset.card) = start.length := by
    omega
  rw [dropped, List.drop_left]

theorem mem_remaining {item : Key × Value} (member : item ∈ remaining room items used) :
    item ∈ items ∧ item.1 ∉ used := by
  have isUnused := (remaining_suffix room items used).subset member
  obtain ⟨isItem, notUsed⟩ := List.mem_filter.mp isUnused
  exact ⟨isItem, of_decide_eq_true notUsed⟩

theorem distinct_remaining (distinct : (items.map Prod.fst).Nodup) (room : Nat) (used : List Key) :
    ((remaining room items used).map Prod.fst).Nodup :=
  distinct.sublist (((remaining_suffix room items used).sublist.trans List.filter_sublist).map _)

theorem remaining_nil (fits : items.length ≤ room) : remaining room items [] = items := by
  have all : unused items [] = items :=
    List.filter_eq_self.mpr fun _ _ => decide_eq_true List.not_mem_nil
  refine eq_remaining (by rw [all]) ?_
  rw [all, List.toFinset_nil, Finset.card_empty]
  omega

/-- A key that is used again changes nothing. -/
theorem remaining_again (again : key ∈ used) :
    remaining room items (used ++ [key]) = remaining room items used := by
  have sameUnused : unused items (used ++ [key]) = unused items used := by
    rw [unused_concat]
    refine List.filter_eq_self.mpr fun item member => decide_eq_true fun same => ?_
    have notUsed := of_decide_eq_true (List.mem_filter.mp member).2
    exact notUsed (same ▸ again)
  have sameKeys : (used ++ [key]).toFinset = used.toFinset := by
    ext other
    simp only [List.mem_toFinset, List.mem_append, List.mem_singleton]
    exact or_iff_left_of_imp fun same => same ▸ again
  rw [remaining, remaining, sameUnused, sameKeys]

theorem card_concat (fresh : key ∉ used) :
    (used ++ [key]).toFinset.card = used.toFinset.card + 1 := by
  rw [List.toFinset_append, List.toFinset_cons, List.toFinset_nil, Finset.union_comm,
    Finset.insert_union, Finset.empty_union, Finset.card_insert_of_notMem]
  rwa [List.mem_toFinset]

/-- At most one item of a list without repeated keys is under a key. -/
theorem length_le_filter_add_one (distinct : (items.map Prod.fst).Nodup) (key : Key) :
    items.length ≤ (items.filter fun item => decide (item.1 ≠ key)).length + 1 := by
  have atMostOne := List.nodup_iff_count_le_one.mp distinct key
  rw [List.count, List.countP_map] at atMostOne
  have parts := List.length_eq_countP_add_countP
    (fun item : Key × Value => decide (item.1 ≠ key)) (l := items)
  have sameParts :
      List.countP (fun item : Key × Value => decide ¬ decide (item.1 ≠ key) = true) items =
        List.countP ((· == key) ∘ Prod.fst) items := by
    refine List.countP_congr fun item _ => ?_
    simp
  rw [sameParts, List.countP_eq_length_filter] at parts
  omega

/-- A new key takes the place of its old item, or of the first one if the cache is full. -/
theorem remaining_use (distinct : (items.map Prod.fst).Nodup) (fresh : key ∉ used)
    (fits : used.toFinset.card + 1 ≤ room) {old : List (Key × Value)}
    (isOld : old = (remaining room items used).filter fun item => decide (item.1 ≠ key)) :
    remaining room items (used ++ [key]) =
      if old.length + used.toFinset.card + 1 > room then old.tail else old := by
  have suffix : old <:+ unused items (used ++ [key]) := by
    rw [isOld, unused_concat]
    exact (remaining_suffix room items used).filter _
  have length := length_remaining room items used
  have loses := length_le_filter_add_one (distinct_remaining distinct room used) key
  have shorter : old.length ≤ (remaining room items used).length := by
    rw [isOld]
    exact List.length_filter_le _ _
  rw [← isOld] at loses
  have bound := suffix.length_le
  have card := card_concat fresh
  split
  · next full =>
    refine eq_remaining ((List.tail_suffix old).trans suffix) ?_
    rw [List.length_tail, card]
    omega
  · next notFull =>
    refine eq_remaining suffix ?_
    rw [card]
    by_cases all : (unused items used).length ≤ room - used.toFinset.card
    · have isAll : remaining room items used = unused items used :=
        (remaining_suffix room items used).eq_of_length (by omega)
      have same : old = unused items (used ++ [key]) := by
        rw [isOld, isAll, unused_concat]
      rw [← same]
      omega
    · omega

/-- The old items that are left, as a dictionary. -/
def OrderedDict.remaining (dict : OrderedDict Key Value) (room : Nat) (used : List Key) :
    OrderedDict Key Value where
  items := OrderedDicts.remaining room dict.items used
  distinct := distinct_remaining dict.distinct room used

end Remaining

end LiteHorse.OrderedDicts
