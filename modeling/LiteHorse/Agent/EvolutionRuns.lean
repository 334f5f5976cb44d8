/-
This file says what a reader of a whole run knows of it: which skills were viewed and which of them
last, and whether something went wrong after the first view. The hook of the runs knows the same
(`Follows`), so its reviews are those of the reader.

`runs_reviewed` says this of every sequence of runs that use one hook, whether they end or fail. A
run counts once for each skill that it has viewed; only one side agent starts, and only for the
skill that was viewed last or for a run of enough calls. What the backends raise is passed over, but
for one call: a refiner whose skill cannot be read makes the hook raise.
-/

import LiteHorse.Agent.Evolution
import LiteHorse.Library.Runs
import Mathlib.Data.List.TakeWhile

namespace LiteHorse.Agent.Evolution

open FeedbackLog (OutcomeStats)
open JsonTexts Patterns Runs
open Worker.Queue (Interpreter PyError isSpace longestInt strip)

/-! ### The marks in a text -/

section Marks

variable (isWord : CodePoint → Bool)

/-- The expression matches a part of the text. -/
def Marker.Marks (marker : Marker) (result : Text) : Prop :=
  ∃ before matched behind, result = before ++ (matched ++ behind) ∧
    marker.compiled.Matches matched ∧
    (marker.startsWord = true → isEdge isWord before (matched ++ behind) = true) ∧
    (marker.endsWord = true → isEdge isWord (before ++ matched) behind = true)

def TellsOfError (result : Text) : Prop := ∃ marker ∈ errorMarkers, marker.Marks isWord result

variable {isWord} {marker : Marker} {before after result : Text}

theorem rest_isSome_iff :
    (marker.rest isWord before after).isSome ↔
      ∃ matched behind, after = matched ++ behind ∧ marker.compiled.Matches matched ∧
        (marker.startsWord = true → isEdge isWord before after = true) ∧
        (marker.endsWord = true → isEdge isWord (before ++ matched) behind = true) := by
  have lengths : ∀ matched behind : Text,
      (matched ++ behind).take ((matched ++ behind).length - behind.length) = matched := by
    intro matched behind
    rw [List.length_append, Nat.add_sub_cancel, List.take_left]
  unfold Marker.rest
  split
  next inside =>
    rw [Bool.and_eq_true, Bool.not_eq_true'] at inside
    refine ⟨fun isSome => (Bool.false_ne_true isSome).elim, ?_⟩
    rintro ⟨matched, behind, _, _, starts, _⟩
    rw [starts inside.1] at inside
    cases inside.2
  next atEdge =>
    have starts : marker.startsWord = true → isEdge isWord before after = true := by
      intro startsWord
      simpa [startsWord] using atEdge
    rw [List.find?_isSome]
    constructor
    · rintro ⟨behind, isRest, ends⟩
      obtain ⟨matched, rfl, isMatch⟩ := mem_rests_iff.mp isRest
      rw [lengths] at ends
      exact ⟨matched, behind, rfl, isMatch, starts, fun endsWord => by simpa [endsWord] using ends⟩
    · rintro ⟨matched, behind, rfl, isMatch, _, ends⟩
      refine ⟨behind, mem_rests_iff.mpr ⟨matched, rfl, isMatch⟩, ?_⟩
      rw [lengths]
      cases endsWord : marker.endsWord with
      | false => rfl
      | true => exact ends endsWord

/-- A search finds what there is to find. -/
theorem search_isSome_iff : (marker.search isWord result).isSome ↔ marker.Marks isWord result := by
  unfold Marker.search
  rw [List.findSome?_isSome_iff]
  simp only [Option.isSome_map, rest_isSome_iff, List.mem_range]
  constructor
  · rintro ⟨start, _, matched, behind, isAfter, isMatch, starts, ends⟩
    refine ⟨result.take start, matched, behind, ?_, isMatch, isAfter ▸ starts, ends⟩
    rw [← isAfter, List.take_append_drop]
  · rintro ⟨before, matched, behind, rfl, isMatch, starts, ends⟩
    refine ⟨before.length, ?_, matched, behind, List.drop_left, isMatch, ?_, ?_⟩
    · rw [List.length_append]
      omega
    · rwa [List.take_left, List.drop_left]
    · rwa [List.take_left]

/-- No expression matches nothing. -/
theorem not_marks_nil (member : marker ∈ errorMarkers) : ¬ marker.Marks isWord [] := by
  have noRests : ∀ marker ∈ errorMarkers, marker.compiled.rests [] = [] := by
    unfold errorMarkers
    simp only [List.forall_mem_cons]
    exact ⟨rfl, rfl, rfl, rfl, List.forall_mem_nil _⟩
  rintro ⟨before, matched, behind, isNil, isMatch, _⟩
  obtain ⟨_, noneLeft⟩ := List.append_eq_nil_iff.mp isNil.symm
  obtain ⟨rfl, rfl⟩ := List.append_eq_nil_iff.mp noneLeft
  have isRest : [] ∈ marker.compiled.rests [] := mem_rests_iff.mpr ⟨[], rfl, isMatch⟩
  rw [noRests marker member] at isRest
  cases isRest

theorem firstErrorMarker_isSome_iff :
    (firstErrorMarker isWord result).isSome ↔ TellsOfError isWord result := by
  unfold firstErrorMarker TellsOfError
  split
  next isEmpty =>
    rw [List.isEmpty_iff.mp isEmpty]
    refine ⟨fun isSome => (Bool.false_ne_true isSome).elim, ?_⟩
    rintro ⟨marker, member, marks⟩
    exact absurd marks (not_marks_nil member)
  next =>
    rw [Option.isSome_map, List.findSome?_isSome_iff]
    simp only [search_isSome_iff]

theorem strip_inside (value : Text) : strip value <:+: value := by
  have inside : (strip value).reverse <:+: (value.dropWhile isSpace).reverse := by
    unfold strip
    rw [List.reverse_reverse]
    exact (List.dropWhile_suffix _).isInfix
  exact (List.reverse_infix.mp inside).trans (List.dropWhile_suffix _).isInfix

/-- A summary is a short part of the result. -/
theorem firstErrorMarker_inside {summary : Text}
    (found : firstErrorMarker isWord result = some summary) :
    summary <:+: result ∧ summary.length ≤ errorSummaryLen := by
  have inside : ∀ place, excerpt result place <:+: result := by
    intro place
    unfold excerpt
    refine (List.take_prefix errorSummaryLen _).isInfix.trans ((strip_inside _).trans ?_)
    exact (List.drop_suffix _ _).isInfix.trans (List.take_prefix _ _).isInfix
  unfold firstErrorMarker at found
  split at found
  next => cases found
  next =>
    obtain ⟨place, _, rfl⟩ := Option.map_eq_some_iff.mp found
    exact ⟨inside place, List.length_take_le _ _⟩

end Marks

/-! ### What a reader of a run sees -/

section Reader

variable {Finite : Type} (interpreter : Interpreter Finite) (isWord : CodePoint → Bool)

/-- The skill that a call has shown. -/
def ToolCall.viewed (call : ToolCall) : Option Text :=
  if call.toolName = "skill_view" then (viewedName interpreter call.result).toOption.join else none

/-- The error that a call of another tool tells of. -/
def ToolCall.failure (call : ToolCall) : Option Text :=
  if call.toolName = "skill_view" then none else firstErrorMarker isWord call.result

/-- The skills that were viewed, each at its first view. -/
def viewedIn (calls : List ToolCall) : List Text :=
  (calls.filterMap (ToolCall.viewed interpreter)).eraseDups

/-- The first error after a skill was viewed. -/
def failureIn (calls : List ToolCall) : Option Text :=
  (calls.dropWhile fun call => (call.viewed interpreter).isNone).findSome?
    (ToolCall.failure isWord)

/-- After a skill was viewed, a call of another tool tells of an error. -/
def Failed (calls : List ToolCall) : Prop :=
  ∃ before call after, calls = before ++ call :: after ∧
    (∃ view ∈ before, (view.viewed interpreter).isSome) ∧ call.toolName ≠ "skill_view" ∧
      TellsOfError isWord call.result

/-- The skill was viewed, and no other one for the first time after it was. -/
def LastViewed (calls : List ToolCall) (skill : Text) : Prop :=
  ∃ before call after, calls = before ++ call :: after ∧
    call.viewed interpreter = some skill ∧
    (∀ earlier ∈ before, earlier.viewed interpreter ≠ some skill) ∧
    ∀ later ∈ after, ∀ other, later.viewed interpreter = some other →
      ∃ earlier ∈ before ++ [call], earlier.viewed interpreter = some other

variable {interpreter isWord} {calls : List ToolCall} {call : ToolCall} {skill : Text}

theorem mem_viewedIn_iff :
    skill ∈ viewedIn interpreter calls ↔ ∃ call ∈ calls, call.viewed interpreter = some skill := by
  unfold viewedIn
  rw [List.mem_eraseDups, List.mem_filterMap]

theorem viewedIn_eq_nil_iff :
    viewedIn interpreter calls = [] ↔ ∀ call ∈ calls, call.viewed interpreter = none := by
  rw [List.eq_nil_iff_forall_not_mem]
  simp only [mem_viewedIn_iff, not_exists, not_and]
  refine ⟨fun noName call member => ?_, fun noView name call member isName => ?_⟩
  · exact Option.eq_none_iff_forall_ne_some.mpr fun name => noName name call member
  · rw [noView call member] at isName
    cases isName

theorem eraseDups_concat {names : List Text} {name : Text} :
    (names ++ [name]).eraseDups =
      if name ∈ names then names.eraseDups else names.eraseDups ++ [name] := by
  rw [List.eraseDups_append, List.removeAll, List.filter_singleton]
  split
  next isOld => simp [isOld]
  next isNew => simp [isNew, List.eraseDups_cons]

theorem viewedIn_none (noView : call.viewed interpreter = none) :
    viewedIn interpreter (calls ++ [call]) = viewedIn interpreter calls := by
  unfold viewedIn
  rw [List.filterMap_append, List.filterMap_cons_none noView, List.filterMap_nil, List.append_nil]

/-- A view counts if it is the first of its skill. -/
theorem viewedIn_some (isView : call.viewed interpreter = some skill) :
    viewedIn interpreter (calls ++ [call]) =
      if skill ∈ viewedIn interpreter calls then viewedIn interpreter calls
      else viewedIn interpreter calls ++ [skill] := by
  unfold viewedIn
  rw [List.filterMap_append, List.filterMap_cons_some isView, List.filterMap_nil,
    eraseDups_concat]
  simp only [List.mem_eraseDups]

theorem nodup_viewedIn : (viewedIn interpreter calls).Nodup := by
  induction calls using List.reverseRecOn with
  | nil => exact List.nodup_nil
  | append_singleton calls call inductionHypothesis =>
    cases isView : call.viewed interpreter with
    | none => rwa [viewedIn_none isView]
    | some skill =>
      rw [viewedIn_some isView]
      split
      next => exact inductionHypothesis
      next isNew =>
        rw [← List.concat_eq_append, List.nodup_concat]
        exact ⟨isNew, inductionHypothesis⟩

theorem lastViewed_concat :
    LastViewed interpreter (calls ++ [call]) skill ↔
      (call.viewed interpreter = some skill ∧ skill ∉ viewedIn interpreter calls) ∨
        (LastViewed interpreter calls skill ∧
          ∀ other, call.viewed interpreter = some other → other ∈ viewedIn interpreter calls) := by
  constructor
  · rintro ⟨before, view, after, whole, isViewed, isFirst, isLast⟩
    rcases List.eq_nil_or_concat' after with rfl | ⟨others, last, rfl⟩
    · obtain ⟨rfl, same⟩ := List.append_inj' whole rfl
      cases same
      refine Or.inl ⟨isViewed, fun member => ?_⟩
      obtain ⟨earlier, isEarlier, isSame⟩ := mem_viewedIn_iff.mp member
      exact isFirst earlier isEarlier isSame
    · rw [← List.cons_append, ← List.append_assoc] at whole
      obtain ⟨rfl, same⟩ := List.append_inj' whole rfl
      cases same
      refine Or.inr ⟨⟨before, view, others, rfl, isViewed, isFirst, ?_⟩, fun other isOther => ?_⟩
      · exact fun later member => isLast later (List.mem_append_left _ member)
      · obtain ⟨earlier, isEarlier, isSame⟩ :=
          isLast call (List.mem_append_right _ (List.mem_singleton_self call)) other isOther
        refine mem_viewedIn_iff.mpr ⟨earlier, ?_, isSame⟩
        rw [List.append_cons]
        exact List.mem_append_left _ isEarlier
  · rintro (⟨isViewed, isNew⟩ | ⟨⟨before, view, after, rfl, isViewed, isFirst, isLast⟩, isOld⟩)
    · refine ⟨calls, call, [], rfl, isViewed, fun earlier member isSame => ?_, ?_⟩
      · exact isNew (mem_viewedIn_iff.mpr ⟨earlier, member, isSame⟩)
      · exact fun later member => absurd member List.not_mem_nil
    · refine ⟨before, view, after ++ [call], ?_, isViewed, isFirst, ?_⟩
      · rw [List.append_assoc, List.cons_append]
      · intro later member other isOther
        rcases List.mem_append.mp member with inside | isCall
        · exact isLast later inside other isOther
        · rw [List.mem_singleton.mp isCall] at isOther
          obtain ⟨earlier, isEarlier, isSame⟩ := mem_viewedIn_iff.mp (isOld other isOther)
          rw [List.append_cons, List.mem_append] at isEarlier
          rcases isEarlier with isBefore | isAfter
          · exact ⟨earlier, isBefore, isSame⟩
          · exact isLast earlier isAfter other isSame

/-- The last of the skills is the one that was viewed last. -/
theorem getLast?_viewedIn_iff :
    (viewedIn interpreter calls).getLast? = some skill ↔ LastViewed interpreter calls skill := by
  induction calls using List.reverseRecOn with
  | nil =>
    refine ⟨fun isLast => ?_, ?_⟩
    · cases isLast
    · rintro ⟨before, view, after, whole, _⟩
      simp at whole
  | append_singleton calls call inductionHypothesis =>
    rw [lastViewed_concat, ← inductionHypothesis]
    cases isView : call.viewed interpreter with
    | none => simp [viewedIn_none isView]
    | some name =>
      rw [viewedIn_some isView]
      split
      next isOld =>
        have notNew : name = skill → skill ∈ viewedIn interpreter calls := fun same => same ▸ isOld
        simp only [Option.some.injEq, forall_eq', isOld, and_true]
        refine ⟨Or.inr, fun either => either.elim (fun new => ?_) id⟩
        exact absurd (notNew new.1) new.2
      next isNew =>
        simp only [List.getLast?_concat, Option.some.injEq, forall_eq', isNew, and_false, or_false]
        exact ⟨fun same => ⟨same, same ▸ isNew⟩, And.left⟩

/-- A call that shows a skill tells of no error. -/
theorem failure_of_viewed (isView : call.viewed interpreter = some skill) :
    call.failure isWord = none := by
  unfold ToolCall.viewed at isView
  unfold ToolCall.failure
  split at isView
  next isSkillView => rw [if_pos isSkillView]
  next => cases isView

theorem dropWhile_eq_nil_iff :
    (calls.dropWhile fun call => (call.viewed interpreter).isNone) = [] ↔
      viewedIn interpreter calls = [] := by
  rw [List.dropWhile_eq_nil_iff, viewedIn_eq_nil_iff]
  simp only [Option.isNone_iff_eq_none]

/-- The next call counts where a skill was viewed and nothing went wrong yet. -/
theorem failureIn_concat :
    failureIn interpreter isWord (calls ++ [call]) =
      (failureIn interpreter isWord calls).or
        (if viewedIn interpreter calls = [] then none else call.failure isWord) := by
  unfold failureIn
  rw [List.dropWhile_append]
  split
  next noView =>
    have noView := List.isEmpty_iff.mp noView
    rw [noView, if_pos (dropWhile_eq_nil_iff.mp noView), List.findSome?_nil, Option.none_or]
    cases isView : call.viewed interpreter with
    | none => simp [isView]
    | some skill => simp [isView, failure_of_viewed isView]
  next someView =>
    have someView := fun isNil => someView (List.isEmpty_iff.mpr isNil)
    rw [if_neg fun isNil => someView (dropWhile_eq_nil_iff.mpr isNil), List.findSome?_append,
      List.findSome?_singleton]

theorem failure_isSome_iff :
    (call.failure isWord).isSome ↔
      call.toolName ≠ "skill_view" ∧ TellsOfError isWord call.result := by
  unfold ToolCall.failure
  split
  next isView => simp [isView]
  next notView => simp [notView, firstErrorMarker_isSome_iff]

theorem failed_concat :
    Failed interpreter isWord (calls ++ [call]) ↔ Failed interpreter isWord calls ∨
      viewedIn interpreter calls ≠ [] ∧ (call.failure isWord).isSome := by
  rw [failure_isSome_iff, Ne, viewedIn_eq_nil_iff]
  constructor
  · rintro ⟨before, failing, after, whole, ⟨view, isBefore, isView⟩, notView, tells⟩
    rcases List.eq_nil_or_concat' after with rfl | ⟨others, last, rfl⟩
    · obtain ⟨rfl, same⟩ := List.append_inj' whole rfl
      cases same
      refine Or.inr ⟨fun noView => ?_, notView, tells⟩
      rw [noView view isBefore] at isView
      cases isView
    · rw [← List.cons_append, ← List.append_assoc] at whole
      obtain ⟨rfl, _⟩ := List.append_inj' whole rfl
      exact Or.inl ⟨before, failing, others, rfl, ⟨view, isBefore, isView⟩, notView, tells⟩
  · rintro (⟨before, failing, after, rfl, viewed, fails⟩ | ⟨viewed, fails⟩)
    · refine ⟨before, failing, after ++ [call], ?_, viewed, fails⟩
      rw [List.append_assoc, List.cons_append]
    · push Not at viewed
      obtain ⟨view, member, isView⟩ := viewed
      exact ⟨calls, call, [], rfl, ⟨view, member, Option.isSome_iff_ne_none.mpr isView⟩, fails⟩

theorem failureIn_isSome_iff :
    (failureIn interpreter isWord calls).isSome ↔ Failed interpreter isWord calls := by
  induction calls using List.reverseRecOn with
  | nil =>
    refine ⟨fun isSome => (Bool.false_ne_true isSome).elim, ?_⟩
    rintro ⟨before, call, after, whole, _⟩
    simp at whole
  | append_singleton calls call inductionHypothesis =>
    rw [failed_concat, ← inductionHypothesis, failureIn_concat, Option.isSome_or, Bool.or_eq_true]
    split
    next noView => simp [noView]
    next someView => simp [someView]

end Reader

/-! ### The hook and the reader -/

section Follows

variable {Finite : Type}

/-- The hook knows of a run what its reader does. -/
structure Follows (interpreter : Interpreter Finite) (isWord : CodePoint → Bool)
    (turnInput : Option (List (Json Finite))) (calls : List ToolCall) (hook : Hook) : Prop where
  toolCallCount : hook.toolCallCount = calls.length
  userRequest : hook.userRequest = extractUserRequest turnInput
  viewedSkills : hook.viewedSkills = viewedIn interpreter calls
  errorSummary : hook.errorSummary = failureIn interpreter isWord calls

variable {interpreter : Interpreter Finite} {isWord : CodePoint → Bool}
  {turnInput : Option (List (Json Finite))} {calls : List ToolCall} {call : ToolCall}
  {hook next : Hook}

theorem follows_onStart : Follows interpreter isWord turnInput [] (onStart turnInput) where
  toolCallCount := rfl
  userRequest := rfl
  viewedSkills := rfl
  errorSummary := rfl

theorem trackView_eq_ok {result : Text} (tracked : hook.trackView interpreter result = .ok next) :
    ∃ shown, viewedName interpreter result = .ok shown ∧
      next = { hook with
        viewedSkills := shown.elim hook.viewedSkills fun name =>
          if name ∈ hook.viewedSkills then hook.viewedSkills
          else hook.viewedSkills ++ [name] } := by
  obtain ⟨shown, isShown, tracked⟩ := Python.bind_eq_ok_iff.mp tracked
  refine ⟨shown, isShown, ?_⟩
  cases shown with
  | none =>
    cases tracked
    rfl
  | some name =>
    dsimp only at tracked
    rw [Option.elim_some]
    split at tracked
    next isOld =>
      cases tracked
      rw [if_pos (List.contains_iff_mem.mp isOld)]
    next isNew =>
      cases tracked
      rw [if_neg fun isOld => isNew (List.contains_iff_mem.mpr isOld)]

theorem Follows.onToolEnd (follows : Follows interpreter isWord turnInput calls hook)
    (ended : hook.onToolEnd interpreter isWord call = .ok next) :
    Follows interpreter isWord turnInput (calls ++ [call]) next := by
  have counted : hook.toolCallCount + 1 = (calls ++ [call]).length := by
    rw [follows.toolCallCount, List.length_append, List.length_singleton]
  unfold Hook.onToolEnd at ended
  dsimp only at ended
  split at ended
  next isSkillView =>
    have noFailure : call.failure isWord = none := if_pos isSkillView
    obtain ⟨shown, isShown, rfl⟩ := trackView_eq_ok ended
    have isViewed : call.viewed interpreter = shown := by
      unfold ToolCall.viewed
      rw [if_pos isSkillView, isShown]
      rfl
    refine ⟨counted, follows.userRequest, ?_, ?_⟩
    · dsimp only
      rw [follows.viewedSkills]
      cases shown with
      | none => exact (viewedIn_none isViewed).symm
      | some name => exact (viewedIn_some isViewed).symm
    · rw [failureIn_concat, noFailure, ite_self, Option.or_none]
      exact follows.errorSummary
  next notSkillView =>
    have noView : call.viewed interpreter = none := if_neg notSkillView
    have failure : call.failure isWord = firstErrorMarker isWord call.result := if_neg notSkillView
    have viewed : viewedIn interpreter (calls ++ [call]) = hook.viewedSkills := by
      rw [viewedIn_none noView, follows.viewedSkills]
    have failed : failureIn interpreter isWord (calls ++ [call]) = hook.errorSummary.or
        (if hook.viewedSkills = [] then none else firstErrorMarker isWord call.result) := by
      rw [failureIn_concat, failure, follows.errorSummary, follows.viewedSkills]
    split at ended
    next looks =>
      rw [Bool.and_eq_true, Bool.not_eq_true', List.isEmpty_eq_false_iff,
        Option.isNone_iff_eq_none] at looks
      cases ended
      refine ⟨counted, follows.userRequest, viewed.symm, ?_⟩
      rw [failed, looks.2, Option.none_or, if_neg looks.1]
    next looksNot =>
      cases ended
      refine ⟨counted, follows.userRequest, viewed.symm, ?_⟩
      rw [failed]
      split
      next => rw [Option.or_none]
      next someView =>
        have hasFailed : hook.errorSummary ≠ none := by simpa [someView] using looksNot
        rw [Option.or_of_isSome (Option.isSome_iff_ne_none.mpr hasFailed)]

/-- A view of the skill backend counts if it has found the skill. -/
theorem viewedName_skillView (shown : Except String (String × String)) :
    viewedName interpreter ((skillView shown).dumpsSpaced interpreter.format) =
      .ok (shown.toOption.map fun skill => text skill.1) := by
  have rejoined : ∀ value, rejoinText (text value) = text value :=
    fun value => rejoinText_eq_self_iff.mpr (noSplitPair_text value)
  have deep : 1 ≤ interpreter.scannerDepth := le_trans (by decide) interpreter.deepEnough.1
  have isRead : interpreter.loads ((skillView shown).dumpsSpaced interpreter.format) =
      .ok (skillView shown).rejoin := by
    unfold Interpreter.loads
    rw [loads_dumpsSpaced, readBack_of_fits]
    · rfl
    · rcases shown with error | ⟨name, content⟩ <;> exact deep
    · rcases shown with error | ⟨name, content⟩ <;> simp [skillView, Json.Everywhere,
        EverywhereFields, FewDigits]
  unfold viewedName
  rw [isRead]
  rcases shown with error | ⟨name, content⟩
  · simp only [skillView, Json.rejoin, rejoinFields, rejoined]
    rfl
  · simp only [skillView, Json.rejoin, rejoinFields, rejoined]
    rfl

theorem viewedName_raises {result : Text} {raised : PyError}
    (isRaised : viewedName interpreter result = .error raised) :
    interpreter.loads result = .error .recursionError := by
  have errors : ∀ error, interpreter.loads result = .error error →
      error = .valueError ∨ error = .recursionError := by
    intro error isError
    unfold Interpreter.loads at isError
    cases loaded : JsonTexts.loads interpreter.format interpreter.maxStrDigits
        interpreter.scannerDepth result with
    | ok value =>
      rw [loaded] at isError
      cases isError
    | error scanned =>
      rw [loaded] at isError
      cases scanned <;> cases isError
      exacts [Or.inl rfl, Or.inl rfl, Or.inr rfl]
  unfold viewedName at isRaised
  split at isRaised
  next => split at isRaised <;> [split at isRaised <;> cases isRaised; cases isRaised]
  next => cases isRaised
  next => cases isRaised
  next error notValueError isError =>
    rcases errors error isError with rfl | rfl
    · exact absurd rfl notValueError
    · exact isError

/-- Only a view whose result is nested too deep raises. -/
theorem onToolEnd_raises {raised : PyError}
    (ended : hook.onToolEnd interpreter isWord call = .error raised) :
    call.toolName = "skill_view" ∧ interpreter.loads call.result = .error .recursionError := by
  unfold Hook.onToolEnd at ended
  dsimp only at ended
  split at ended
  next isSkillView =>
    refine ⟨isSkillView, ?_⟩
    unfold Hook.trackView at ended
    cases isShown : viewedName interpreter call.result with
    | error other => exact viewedName_raises isShown
    | ok shown =>
      rw [isShown] at ended
      cases shown with
      | none => cases ended
      | some name =>
        rw [Python.ok_bind] at ended
        dsimp only at ended
        split at ended <;> cases ended
  next => split at ended <;> cases ended

end Follows

/-! ### The reviews -/

/-- A run that has ended, with its review. -/
structure Run (Finite : Type) where
  turnInput : Option (List (Json Finite))
  calls : List ToolCall
  backends : Backends
  output : Option Text
  review : Review

/-- Where a skill has enough ratings these say whether it is to be improved, else the run does. -/
def SaysFail (stats : Option OutcomeStats) (failed : Prop) : Prop :=
  match stats with
  | some stats =>
    if curatorRefineMinOutcomes ≤ stats.successCount + stats.errorCount then
      stats.successCount < stats.errorCount
    else failed
  | none => failed

namespace Run

variable {Finite : Type} (interpreter : Interpreter Finite) (isWord : CodePoint → Bool)
  (minToolCalls : Nat) (run : Run Finite)

/-- The hook, if it had been told of the whole run at once. -/
def told : Hook where
  toolCallCount := run.calls.length
  userRequest := extractUserRequest run.turnInput
  finalOutput := run.output.map fun output => List.take 1000 output
  viewedSkills := viewedIn interpreter run.calls
  errorSummary := failureIn interpreter isWord run.calls

/-- The skill is to be improved after the run. -/
def ToRefine (skill : Text) : Prop :=
  LastViewed interpreter run.calls skill ∧
    SaysFail (run.backends.ratingStats skill) (Failed interpreter isWord run.calls)

/-- A new skill may be written after the run. -/
def ToCreate : Prop :=
  (∀ skill, ¬ run.ToRefine interpreter isWord skill) ∧ minToolCalls ≤ run.calls.length

/-- The review counts the run once for every skill that it has viewed, and one side agent starts if
there is something for it to do. -/
structure Reviewed : Prop where
  counted : ∀ skill, (run.review.outcomes.filter fun outcome => outcome.name = skill) =
    if skill ∈ viewedIn interpreter run.calls then
      [{ name := skill
         ok := (failureIn interpreter isWord run.calls).isNone
         errorSummary := failureIn interpreter isWord run.calls
         recorded := run.backends.records skill }]
    else []
  refined : ∀ skill prompt, run.review.sideAgent = .ok (some (.refiner skill prompt)) ↔
    run.ToRefine interpreter isWord skill ∧
      ∃ skillMd, skillMd ≠ [] ∧ run.backends.readMd skill = .ok (some skillMd) ∧
        prompt = ((run.told interpreter isWord).refinement skill skillMd).dumpsSpaced
          interpreter.format
  created : ∀ prompt, run.review.sideAgent = .ok (some (.distiller prompt)) ↔
    run.ToCreate interpreter isWord minToolCalls ∧
      run.calls.length < 10 ^ interpreter.maxStrDigits ∧
      prompt = (run.told interpreter isWord).creation.dumpsSpaced interpreter.format
  raises : run.review.sideAgent = .error () ↔
    (∃ skill, run.ToRefine interpreter isWord skill ∧ run.backends.readMd skill = .error ()) ∨
      run.ToCreate interpreter isWord minToolCalls ∧
        10 ^ interpreter.maxStrDigits ≤ run.calls.length

end Run

/-! ### The runs -/

inductive Event (Finite : Type) where
  | start (turnInput : Option (List (Json Finite)))
  | toolEnd (call : ToolCall)
  /-- The run ends with an output. -/
  | finish (backends : Backends) (output : Option Text)

/-- A run under way. -/
structure Started (Finite : Type) where
  turnInput : Option (List (Json Finite))
  calls : List ToolCall

structure State (Finite : Type) where
  hook : Hook
  started : Option (Started Finite)
  runs : List (Run Finite)

section System

variable {Finite : Type} (interpreter : Interpreter Finite) (isWord : CodePoint → Bool)
  (minToolCalls : Nat)

/-- A new hook. -/
def State.initial : State Finite where
  hook :=
    { toolCallCount := 0
      userRequest := none
      finalOutput := none
      viewedSkills := []
      errorSummary := none }
  started := none
  runs := []

/-- A run that raises is not followed any longer, and does not end with an output. -/
def step (state : State Finite) : Event Finite → Option (State Finite)
  | .start turnInput =>
    some { state with
      hook := onStart turnInput
      started := some { turnInput, calls := [] } }
  | .toolEnd call =>
    state.started.map fun started =>
      match state.hook.onToolEnd interpreter isWord call with
      | .ok hook =>
        { state with
          hook
          started := some { started with calls := started.calls ++ [call] } }
      | .error _ => { state with started := none }
  | .finish backends output =>
    state.started.map fun started =>
      { state with
        started := none
        runs := state.runs ++
          [{ turnInput := started.turnInput
             calls := started.calls
             backends
             output
             review := state.hook.onEnd interpreter minToolCalls backends output }] }

end System

/-! ### One review -/

section Review

variable {Finite : Type} {interpreter : Interpreter Finite} {isWord : CodePoint → Bool}
  {minToolCalls : Nat} {run : Run Finite} {skill : Text}

/-- What there is to do for the hook that was told at once. -/
theorem shouldRefine_iff :
    (run.told interpreter isWord).shouldRefine run.backends ↔
      ∃ skill, run.ToRefine interpreter isWord skill := by
  have viewed : (run.told interpreter isWord).viewedSkills = viewedIn interpreter run.calls := rfl
  unfold Hook.shouldRefine Run.ToRefine
  simp only [← getLast?_viewedIn_iff, viewed]
  cases last : (viewedIn interpreter run.calls).getLast? with
  | none => simp
  | some target =>
    simp only [Option.some.injEq, exists_eq_left']
    rw [← failureIn_isSome_iff]
    unfold SaysFail
    cases run.backends.ratingStats target with
    | none => exact Iff.rfl
    | some stats =>
      dsimp only [Run.told]
      split
      next few => rw [if_neg (not_le.mpr few)]
      next many =>
        rw [if_pos (not_lt.mp many)]
        split
        next notNegative => simp only [Bool.false_eq_true, false_iff]; omega
        next negative => simp only [true_iff]; omega

theorem Run.ToRefine.unique {other : Text} (toRefine : run.ToRefine interpreter isWord skill)
    (otherToo : run.ToRefine interpreter isWord other) : other = skill := by
  have isLast := getLast?_viewedIn_iff.mpr toRefine.1
  exact Option.some.inj ((getLast?_viewedIn_iff.mpr otherToo.1).symm.trans isLast)

theorem dumps_refinement (hook : Hook) (target skillMd : Text) :
    dumps interpreter (hook.refinement target skillMd) =
      some ((hook.refinement target skillMd).dumpsSpaced interpreter.format) := by
  have noInt : ∀ value, longestInt (textOrNull value : Json Finite) = 0 := by
    rintro (_ | value) <;> rfl
  refine if_pos ?_
  simp [Hook.refinement, longestInt, Worker.Queue.longestIntFields, noInt]

/-- Only the number of the calls may have too many digits. -/
theorem dumps_creation (hook : Hook) :
    dumps interpreter hook.creation =
      if hook.toolCallCount < 10 ^ interpreter.maxStrDigits then
        some (hook.creation.dumpsSpaced interpreter.format)
      else none := by
  have noInt : ∀ value, longestInt (textOrNull value : Json Finite) = 0 := by
    rintro (_ | value) <;> rfl
  have positive : 1 ≤ interpreter.maxStrDigits := le_trans (by decide) interpreter.enoughDigits
  have fits : longestInt (hook.creation : Json Finite) ≤ interpreter.maxStrDigits ↔
      hook.toolCallCount < 10 ^ interpreter.maxStrDigits := by
    rw [← Nat.digits_length_le_iff (by decide)]
    simp [Hook.creation, longestInt, Worker.Queue.longestIntFields, noInt, length_ofNat, positive]
  unfold dumps
  simp only [fits]

/-- What a review may do, and when. -/
theorem sideAgent_cases
    (isTold : run.review =
      (run.told interpreter isWord).onEnd interpreter minToolCalls run.backends run.output) :
    (∃ skill, run.ToRefine interpreter isWord skill ∧ run.backends.readMd skill = .error () ∧
      run.review.sideAgent = .error ()) ∨
    (∃ skill, run.ToRefine interpreter isWord skill ∧
      (run.backends.readMd skill = .ok none ∨ run.backends.readMd skill = .ok (some [])) ∧
      run.review.sideAgent = .ok none) ∨
    (∃ skill skillMd, run.ToRefine interpreter isWord skill ∧ skillMd ≠ [] ∧
      run.backends.readMd skill = .ok (some skillMd) ∧
      run.review.sideAgent = .ok (some (.refiner skill
        (((run.told interpreter isWord).refinement skill skillMd).dumpsSpaced
          interpreter.format)))) ∨
    ((∀ skill, ¬ run.ToRefine interpreter isWord skill) ∧ run.calls.length < minToolCalls ∧
      run.review.sideAgent = .ok none) ∨
    (run.ToCreate interpreter isWord minToolCalls ∧
      run.calls.length < 10 ^ interpreter.maxStrDigits ∧
      run.review.sideAgent = .ok (some (.distiller
        ((run.told interpreter isWord).creation.dumpsSpaced interpreter.format)))) ∨
    (run.ToCreate interpreter isWord minToolCalls ∧
      10 ^ interpreter.maxStrDigits ≤ run.calls.length ∧ run.review.sideAgent = .error ()) := by
  have isSide : run.review.sideAgent =
      if (run.told interpreter isWord).shouldRefine run.backends then
        (run.told interpreter isWord).maybeRefineSkill interpreter run.backends
      else if run.calls.length < minToolCalls then .ok none
      else (run.told interpreter isWord).maybeCreateSkill interpreter :=
    congrArg Review.sideAgent isTold
  rw [isSide]
  split
  next refines =>
    obtain ⟨skill, toRefine⟩ := shouldRefine_iff.mp refines
    have isLast : (run.told interpreter isWord).viewedSkills.getLast? = some skill :=
      getLast?_viewedIn_iff.mpr toRefine.1
    unfold Hook.maybeRefineSkill
    rw [isLast]
    dsimp only
    cases isRead : run.backends.readMd skill with
    | error raised => exact Or.inl ⟨skill, toRefine, isRead, rfl⟩
    | ok shown =>
      rcases shown with _ | _ | ⟨char, rest⟩
      · exact Or.inr (Or.inl ⟨skill, toRefine, Or.inl isRead, rfl⟩)
      · exact Or.inr (Or.inl ⟨skill, toRefine, Or.inr isRead, rfl⟩)
      · refine Or.inr (Or.inr (Or.inl ⟨skill, char :: rest, toRefine, List.cons_ne_nil _ _, isRead,
          ?_⟩))
        simp only [Python.ok_bind, dumps_refinement]
        rfl
  next notRefines =>
    have noSkill : ∀ skill, ¬ run.ToRefine interpreter isWord skill :=
      not_exists.mp fun some => notRefines (shouldRefine_iff.mpr some)
    split
    next few => exact Or.inr (Or.inr (Or.inr (Or.inl ⟨noSkill, few, rfl⟩)))
    next many =>
      have toCreate : run.ToCreate interpreter isWord minToolCalls := ⟨noSkill, not_lt.mp many⟩
      unfold Hook.maybeCreateSkill
      rw [dumps_creation]
      by_cases fits : (run.told interpreter isWord).toolCallCount < 10 ^ interpreter.maxStrDigits
      · refine Or.inr (Or.inr (Or.inr (Or.inr (Or.inl ⟨toCreate, fits, ?_⟩))))
        rw [if_pos fits]
      · refine Or.inr (Or.inr (Or.inr (Or.inr (Or.inr ⟨toCreate, not_lt.mp fits, ?_⟩))))
        rw [if_neg fits]

theorem reviewed_told
    (isTold : run.review =
      (run.told interpreter isWord).onEnd interpreter minToolCalls run.backends run.output) :
    run.Reviewed interpreter isWord minToolCalls where
  counted skill := by
    rw [isTold]
    show List.filter _ ((viewedIn interpreter run.calls).map _) = _
    rw [List.filter_map]
    show List.map _ ((viewedIn interpreter run.calls).filter fun name => name = skill) = _
    rw [List.filter_eq, nodup_viewedIn.count]
    split <;> rfl
  refined skill prompt := by
    have cases := sideAgent_cases isTold
    have unique := @Run.ToRefine.unique Finite interpreter isWord run
    unfold Run.ToCreate at cases
    grind
  created prompt := by
    have cases := sideAgent_cases isTold
    unfold Run.ToCreate at cases ⊢
    grind
  raises := by
    have cases := sideAgent_cases isTold
    have unique := @Run.ToRefine.unique Finite interpreter isWord run
    unfold Run.ToCreate at cases ⊢
    grind

end Review

/-! ### Every run -/

variable {Finite : Type} (interpreter : Interpreter Finite) (isWord : CodePoint → Bool)
  (minToolCalls : Nat)

structure Invariant (state : State Finite) : Prop where
  follows : ∀ started, state.started = some started →
    Follows interpreter isWord started.turnInput started.calls state.hook
  reviewed : ∀ run ∈ state.runs, run.Reviewed interpreter isWord minToolCalls

theorem invariant_initial :
    Invariant interpreter isWord minToolCalls (State.initial : State Finite) where
  follows started isStarted := by cases isStarted
  reviewed run member := absurd member List.not_mem_nil

variable {interpreter isWord minToolCalls} {state next : State Finite}

theorem Invariant.start (invariant : Invariant interpreter isWord minToolCalls state)
    (turnInput : Option (List (Json Finite))) :
    Invariant interpreter isWord minToolCalls
      { state with
        hook := onStart turnInput
        started := some { turnInput, calls := [] } } where
  follows started isStarted := by
    cases isStarted
    exact follows_onStart
  reviewed := invariant.reviewed

theorem Invariant.step (invariant : Invariant interpreter isWord minToolCalls state)
    {event : Event Finite} (taken : step interpreter isWord minToolCalls state event = some next) :
    Invariant interpreter isWord minToolCalls next := by
  cases event with
  | start turnInput =>
    cases taken
    exact invariant.start turnInput
  | toolEnd call =>
    obtain ⟨started, isStarted, rfl⟩ := Option.map_eq_some_iff.mp taken
    cases ended : state.hook.onToolEnd interpreter isWord call with
    | error raised =>
      exact ⟨fun other isOther => (by cases isOther), invariant.reviewed⟩
    | ok hook =>
      refine ⟨fun other isOther => ?_, invariant.reviewed⟩
      cases isOther
      exact (invariant.follows started isStarted).onToolEnd ended
  | finish backends output =>
    obtain ⟨started, isStarted, rfl⟩ := Option.map_eq_some_iff.mp taken
    refine ⟨fun other isOther => (by cases isOther), ?_⟩
    rw [List.forall_mem_append, List.forall_mem_singleton]
    refine ⟨invariant.reviewed, reviewed_told ?_⟩
    obtain ⟨counted, request, viewed, failed⟩ := invariant.follows started isStarted
    unfold Hook.onEnd Run.told
    simp only [counted, request, viewed, failed]

variable (interpreter isWord minToolCalls)

/-- Whatever the agent does in its runs, and whatever the backends answer or raise, every run that
ends is reviewed as one who reads all of it would review it. -/
theorem runs_reviewed (events : List (Event Finite)) :
    Always (step interpreter isWord minToolCalls)
      (fun state => ∀ run ∈ state.runs, run.Reviewed interpreter isWord minToolCalls)
      State.initial events := by
  have always : Always (step interpreter isWord minToolCalls)
      (Invariant interpreter isWord minToolCalls) State.initial events :=
    always_invariant (step interpreter isWord minToolCalls)
      (fun _ _ _ invariant taken => invariant.step taken)
      (invariant_initial interpreter isWord minToolCalls)
  exact always.mono (step interpreter isWord minToolCalls) fun _ invariant => invariant.reviewed

end LiteHorse.Agent.Evolution
