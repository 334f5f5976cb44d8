/-
This file is about a queue with many senders and one reader, who stops reading at the first
item that ends the conversation. A channel keeps what was read beside what still waits, so
what was sent is the two put together; the order is first in, first out.

`Channel.Ended.body_eq` is the rule the later files use: whoever else sends into the channel,
what was read before the end is, of every sender that sends the end, exactly what it sent
before it.
-/

import Mathlib.Data.List.Basic
import Mathlib.Data.List.TakeWhile
import Mathlib.Tactic.Common

namespace LiteHorse.Channels

variable {Item : Type*}

structure Channel (Item : Type*) where
  read : List Item := []
  waiting : List Item := []

namespace Channel

def send (channel : Channel Item) (items : List Item) : Channel Item :=
  { channel with waiting := channel.waiting ++ items }

/-- The next item, and the channel after it was read. -/
def receive (channel : Channel Item) : Option (Item × Channel Item) :=
  match channel.waiting with
  | [] => none
  | item :: rest => some (item, ⟨channel.read ++ [item], rest⟩)

/-- Everything that was sent so far. -/
def sent (channel : Channel Item) : List Item := channel.read ++ channel.waiting

variable (terminates : Item → Bool)

/-- Nothing that was read ends the conversation. -/
def Open (channel : Channel Item) : Prop := ∀ item ∈ channel.read, terminates item = false

/-- What was read before the end. -/
def body (channel : Channel Item) : List Item :=
  channel.read.takeWhile fun item => !terminates item

/-- The last item read, and no other, ends the conversation. -/
def Ended (channel : Channel Item) : Prop :=
  ∃ last, terminates last = true ∧ channel.read = channel.body terminates ++ [last]

/-- An item that ends the conversation waits to be read. -/
def EndWaits (channel : Channel Item) : Prop := ∃ item ∈ channel.waiting, terminates item = true

variable {terminates} {channel next : Channel Item} {item : Item}

theorem sent_send (channel : Channel Item) (items : List Item) :
    (channel.send items).sent = channel.sent ++ items := by
  unfold sent send
  rw [List.append_assoc]

theorem receive_eq_some_iff :
    channel.receive = some (item, next) ↔
      channel.waiting = item :: next.waiting ∧ next.read = channel.read ++ [item] := by
  unfold receive
  cases next with
  | mk read waiting =>
    split
    · next empty => simp [empty]
    · next head rest waits =>
      rw [waits, Option.some.injEq, Prod.mk.injEq, Channel.mk.injEq, List.cons.injEq]
      constructor
      · rintro ⟨rfl, rfl, rfl⟩
        exact ⟨⟨rfl, rfl⟩, rfl⟩
      · rintro ⟨⟨rfl, rfl⟩, rfl⟩
        exact ⟨rfl, rfl, rfl⟩

/-- Reading sends nothing. -/
theorem sent_receive (received : channel.receive = some (item, next)) :
    next.sent = channel.sent := by
  obtain ⟨waits, read⟩ := receive_eq_some_iff.mp received
  unfold sent
  rw [read, waits, List.append_assoc]
  rfl

theorem Open.body_eq (isOpen : channel.Open terminates) :
    channel.body terminates = channel.read := by
  unfold body
  rw [List.takeWhile_eq_self_iff]
  intro item member
  rw [isOpen item member]
  rfl

/-- An item that does not end the conversation leaves it open. -/
theorem Open.receive (isOpen : channel.Open terminates)
    (received : channel.receive = some (item, next)) (goesOn : terminates item = false) :
    next.Open terminates := by
  obtain ⟨_, read⟩ := receive_eq_some_iff.mp received
  intro other member
  rw [read, List.mem_append, List.mem_singleton] at member
  rcases member with earlier | rfl
  · exact isOpen other earlier
  · exact goesOn

/-- An item that ends the conversation is the only one that was read. -/
theorem Open.ended (isOpen : channel.Open terminates)
    (received : channel.receive = some (item, next)) (ends : terminates item = true) :
    next.body terminates = channel.read ∧ next.Ended terminates := by
  obtain ⟨_, read⟩ := receive_eq_some_iff.mp received
  have isBody : next.body terminates = channel.read := by
    unfold body
    rw [read, List.takeWhile_append_of_pos fun other member => by rw [isOpen other member]; rfl,
      List.takeWhile_cons_of_neg (by simp [ends]), List.append_nil]
  exact ⟨isBody, item, ends, by rw [isBody, read]⟩

theorem EndWaits.send (waits : channel.EndWaits terminates) (items : List Item) :
    (channel.send items).EndWaits terminates := by
  obtain ⟨item, member, ends⟩ := waits
  exact ⟨item, List.mem_append_left _ member, ends⟩

/-- An end that waits still waits after another item was read. -/
theorem EndWaits.receive (waits : channel.EndWaits terminates)
    (received : channel.receive = some (item, next)) (goesOn : terminates item = false) :
    next.EndWaits terminates := by
  obtain ⟨other, member, ends⟩ := waits
  rw [(receive_eq_some_iff.mp received).1] at member
  rcases List.mem_cons.mp member with rfl | later
  · rw [goesOn] at ends
    cases ends
  · exact ⟨other, later, ends⟩

/-- Taking items up to the end and picking one sender's items commute when all the ends are
that sender's. -/
theorem takeWhile_filter (fromSender : Item → Bool)
    (endsAreIts : ∀ item, terminates item = true → fromSender item = true) (items : List Item) :
    (items.filter fromSender).takeWhile (fun item => !terminates item) =
      (items.takeWhile fun item => !terminates item).filter fromSender := by
  induction items with
  | nil => rfl
  | cons item rest inductionHypothesis =>
    by_cases ends : terminates item = true
    · rw [List.filter_cons_of_pos (endsAreIts item ends),
        List.takeWhile_cons_of_neg (by simp [ends]), List.takeWhile_cons_of_neg (by simp [ends])]
      rfl
    · have goesOn : (!terminates item) = true := by simpa using ends
      rw [List.takeWhile_cons_of_pos (p := fun item => !terminates item) goesOn]
      by_cases isIts : fromSender item = true
      · rw [List.filter_cons_of_pos isIts, List.filter_cons_of_pos isIts,
          List.takeWhile_cons_of_pos (p := fun item => !terminates item) goesOn,
          inductionHypothesis]
      · rw [List.filter_cons_of_neg isIts, List.filter_cons_of_neg isIts, inductionHypothesis]

/-- What was read before the end is, of a sender that sends the ends, a prefix of what it sent
before them. -/
theorem body_prefix (channel : Channel Item) (fromSender : Item → Bool)
    (endsAreIts : ∀ item, terminates item = true → fromSender item = true) :
    (channel.body terminates).filter fromSender <+:
      (channel.sent.filter fromSender).takeWhile fun item => !terminates item := by
  rw [takeWhile_filter fromSender endsAreIts]
  refine List.IsPrefix.filter _ ?_
  unfold body sent
  rw [List.takeWhile_append]
  split
  · exact (List.takeWhile_prefix _).trans (List.prefix_append _ _)
  · exact List.prefix_rfl

/-- Of a conversation that has ended, what was read before the end is what was sent before
it. -/
theorem Ended.body_eq (ended : channel.Ended terminates) (fromSender : Item → Bool)
    (endsAreIts : ∀ item, terminates item = true → fromSender item = true) :
    (channel.body terminates).filter fromSender =
      (channel.sent.filter fromSender).takeWhile fun item => !terminates item := by
  obtain ⟨last, ends, read⟩ := ended
  have goOn : ∀ item ∈ channel.body terminates, (!terminates item) = true := fun item member =>
    List.mem_takeWhile_imp (p := fun item => !terminates item) member
  rw [takeWhile_filter fromSender endsAreIts, sent, read, List.append_assoc,
    List.takeWhile_append_of_pos goOn, List.cons_append,
    List.takeWhile_cons_of_neg (by simp [ends]), List.append_nil]

end Channel

end LiteHorse.Channels
