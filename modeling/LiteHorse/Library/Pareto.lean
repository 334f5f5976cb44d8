/-
This file is about choosing among items with two values, where more is better in both. An item is
dominated by one that is at least as good in both values and better in one, which is the product
order on the values. Another order is the lexicographic one, by the first value and then by the
second.

What is greatest lexicographically is never dominated (`not_lt_of_greatest`). Going through the
items and keeping the one at hand until another dominates it never loses ground, but ends with the
greatest one only if that comes while the one at hand is no better in the second value
(`greatest_keep_iff`).
-/

import Mathlib.Data.Prod.Lex
import Mathlib.Tactic.Common

namespace LiteHorse.Pareto

variable {Item First Second : Type*} [LinearOrder First] [LinearOrder Second]
  (value : Item → First × Second)

/-- No item of the list is better lexicographically. -/
def Greatest (items : List Item) (item : Item) : Prop :=
  ∀ other ∈ items, toLex (value other) ≤ toLex (value item)

/-- The first of the items that are greatest lexicographically. -/
def pick : List Item → Option Item
  | [] => none
  | item :: rest =>
    some (rest.foldl
      (fun best other => if toLex (value best) < toLex (value other) then other else best) item)

open Classical in
/-- The item at hand, or another one that dominates it. -/
noncomputable def keep (best other : Item) : Item :=
  if value best < value other then other else best

variable {value} {items front back : List Item} {item other best : Item}

theorem not_lt_of_greatest (greatest : Greatest value items item) (member : other ∈ items) :
    ¬ value item < value other :=
  fun dominated => (Prod.Lex.toLex_strictMono dominated).not_ge (greatest other member)

/-! ### The greatest item -/

theorem pick_eq_none_iff : pick value items = none ↔ items = [] := by
  cases items with
  | nil => exact iff_of_true rfl rfl
  | cons item rest => exact iff_of_false (Option.some_ne_none _) (List.cons_ne_nil _ _)

theorem pick_spec (picked : pick value items = some item) :
    item ∈ items ∧ Greatest value items item := by
  have fold : ∀ (rest : List Item) (best : Item),
      let last := rest.foldl
        (fun best other => if toLex (value best) < toLex (value other) then other else best) best
      (last = best ∨ last ∈ rest) ∧ toLex (value best) ≤ toLex (value last) ∧
        Greatest value rest last := by
    intro rest
    induction rest with
    | nil => exact fun best => ⟨Or.inl rfl, le_rfl, List.forall_mem_nil _⟩
    | cons first rest inductionHypothesis =>
      intro best
      rw [List.foldl_cons]
      dsimp only
      split
      next better =>
        obtain ⟨isOne, atLeast, greatest⟩ := inductionHypothesis first
        refine ⟨Or.inr ?_, better.le.trans atLeast, List.forall_mem_cons.mpr ⟨atLeast, greatest⟩⟩
        rcases isOne with same | member
        · rw [same]
          exact List.mem_cons_self
        · exact List.mem_cons_of_mem _ member
      next notBetter =>
        obtain ⟨isOne, atLeast, greatest⟩ := inductionHypothesis best
        refine ⟨isOne.imp_right (List.mem_cons_of_mem _), atLeast,
          List.forall_mem_cons.mpr ⟨(not_lt.mp notBetter).trans atLeast, greatest⟩⟩
  cases items with
  | nil => cases picked
  | cons first rest =>
    cases picked
    obtain ⟨isOne, atLeast, greatest⟩ := fold rest first
    refine ⟨?_, List.forall_mem_cons.mpr ⟨atLeast, greatest⟩⟩
    rcases isOne with same | member
    · rw [same]
      exact List.mem_cons_self
    · exact List.mem_cons_of_mem _ member

/-- Where a part of the items has the greatest ones, the greatest of the part is one of them. -/
theorem exists_pick_front (nonempty : items ≠ [])
    (front_of_greatest : ∀ item ∈ items, Greatest value items item → item ∈ front) :
    ∃ item, pick value front = some item ∧ item ∈ front ∧ Greatest value items item := by
  have picks : pick value items ≠ none := mt pick_eq_none_iff.mp nonempty
  obtain ⟨top, isTop⟩ := Option.ne_none_iff_exists'.mp picks
  obtain ⟨topMember, topGreatest⟩ := pick_spec isTop
  have topFront : top ∈ front := front_of_greatest top topMember topGreatest
  cases picked : pick value front with
  | none =>
    rw [pick_eq_none_iff.mp picked] at topFront
    cases topFront
  | some item =>
    obtain ⟨member, greatest⟩ := pick_spec picked
    exact ⟨item, rfl, member,
      fun other isOther => (topGreatest other isOther).trans (greatest top topFront)⟩

/-! ### Keeping what is not dominated -/

theorem le_keep (best other : Item) : value best ≤ value (keep value best other) := by
  unfold keep
  split
  next dominated => exact dominated.le
  next => exact le_rfl

theorem le_foldl_keep (items : List Item) (best : Item) :
    value best ≤ value (items.foldl (keep value) best) := by
  induction items generalizing best with
  | nil => exact le_rfl
  | cons other items inductionHypothesis => exact (le_keep best other).trans (inductionHypothesis _)

/-- What is not dominated stays. -/
theorem foldl_keep_of_greatest (greatest : Greatest value items best) :
    items.foldl (keep value) best = best := by
  induction items with
  | nil => rfl
  | cons other items inductionHypothesis =>
    obtain ⟨atLeast, rest⟩ := List.forall_mem_cons.mp greatest
    have stays : keep value best other = best :=
      if_neg (not_lt_of_greatest greatest List.mem_cons_self)
    rw [List.foldl_cons, stays]
    exact inductionHypothesis rest

theorem foldl_keep_mem (items : List Item) (best : Item) :
    items.foldl (keep value) best ∈ best :: items := by
  induction items generalizing best with
  | nil => exact List.mem_singleton_self best
  | cons other items inductionHypothesis =>
    rw [List.foldl_cons]
    have kept : keep value best other = best ∨ keep value best other = other := by
      unfold keep
      split
      next => exact Or.inr rfl
      next => exact Or.inl rfl
    rcases List.mem_cons.mp (inductionHypothesis (keep value best other)) with same | later
    · rw [same]
      rcases kept with isBest | isOther
      · rw [isBest]
        exact List.mem_cons_self
      · rw [isOther]
        exact List.mem_cons_of_mem _ List.mem_cons_self
    · exact List.mem_cons_of_mem _ (List.mem_cons_of_mem _ later)

/-- A greatest item that is no worse in the second value has the value of what is kept. -/
theorem value_keep_of_le (first : toLex (value best) ≤ toLex (value item))
    (second : (value best).2 ≤ (value item).2) : value (keep value best item) = value item := by
  have atLeast : value best ≤ value item := ⟨(Prod.Lex.monotone_fst _ _ first), second⟩
  unfold keep
  split
  next => rfl
  next notLess => exact eq_of_le_of_not_lt atLeast notLess

/-- A greatest item is kept exactly if the one at hand before it is no better in the second
value. -/
theorem greatest_keep_iff (greatest : Greatest value (best :: (front ++ item :: back)) item) :
    Greatest value (best :: (front ++ item :: back))
        ((front ++ item :: back).foldl (keep value) best) ↔
      (value (front.foldl (keep value) best)).2 ≤ (value item).2 := by
  have atHandMember : front.foldl (keep value) best ∈ best :: (front ++ item :: back) :=
    List.cons_subset_cons best (List.subset_append_left front _) (foldl_keep_mem front best)
  have lastMember : (front ++ item :: back).foldl (keep value) best ∈
      best :: (front ++ item :: back) := foldl_keep_mem _ best
  have atHand := greatest _ atHandMember
  have last := greatest _ lastMember
  rw [List.foldl_append, List.foldl_cons] at last ⊢
  constructor
  · intro isGreatest
    by_contra worse
    have itemMember : item ∈ best :: (front ++ item :: back) :=
      List.mem_cons_of_mem _ (List.mem_append_right _ List.mem_cons_self)
    have same := le_antisymm last (isGreatest item itemMember)
    have grows : value (front.foldl (keep value) best) ≤
        value (back.foldl (keep value) (keep value (front.foldl (keep value) best) item)) :=
      (le_keep _ item).trans (le_foldl_keep back _)
    rw [toLex_inj.mp same] at grows
    exact worse grows.2
  · intro second
    have same := value_keep_of_le atHand second
    have greatestBack : Greatest value back
        (keep value (front.foldl (keep value) best) item) := by
      intro other member
      rw [same]
      exact greatest other
        (List.mem_cons_of_mem _ (List.mem_append_right _ (List.mem_cons_of_mem _ member)))
    rw [foldl_keep_of_greatest greatestBack]
    intro other member
    rw [same]
    exact greatest other member

end LiteHorse.Pareto
