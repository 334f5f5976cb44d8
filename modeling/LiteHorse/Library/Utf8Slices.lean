/-
This file is about the bytes of a text from one position to another, read as UTF-8 with
replacement. A character that is cut at the start leaves bytes that begin nothing, each read as a
replacement character; one that is cut at the end is read as a single replacement character; and
the characters in between are read as they are (`decode_slice`).
-/

import LiteHorse.Library.Utf8

namespace LiteHorse.Utf8

open JsonTexts

/-! ### The bytes of a text -/

/-- The bytes of a code point, none for a surrogate. -/
def charBytes (char : CodePoint) : List UInt8 := (encodeChar char).getD []

def textBytes (value : Text) : List UInt8 := value.flatMap charBytes

def Encodable (value : Text) : Prop := ∀ char ∈ value, (encodeChar char).isSome

section Bytes

variable {char : CodePoint} {value rest : Text}

theorem encode_eq_textBytes (encodable : Encodable value) :
    encode value = some (textBytes value) := by
  induction value with
  | nil => rfl
  | cons char rest inductionHypothesis =>
    obtain ⟨isSome, others⟩ := List.forall_mem_cons.mp encodable
    obtain ⟨bytes, isBytes⟩ := Option.isSome_iff_exists.mp isSome
    unfold textBytes charBytes
    rw [encode, inductionHypothesis others, isBytes, List.flatMap_cons, isBytes]
    rfl

theorem encodable_text (value : String) : Encodable (text value) := by
  intro char member
  rw [encodeChar_isSome_iff]
  exact noSurrogate_text value char member

theorem charBytes_cases (isSome : (encodeChar char).isSome) :
    ∃ byte following, charBytes char = byte :: following ∧ Begins char byte following ∧
      ∀ other ∈ following, ∃ bits, other = continuation bits := by
  obtain ⟨bytes, isBytes⟩ := Option.isSome_iff_exists.mp isSome
  unfold charBytes
  rw [isBytes]
  exact begins_of_encodeChar isBytes

theorem decode_textBytes_append (encodable : Encodable value) (more : List UInt8) :
    decode (textBytes value ++ more) = value ++ decode more :=
  decode_encode_append (encode_eq_textBytes encodable) more

end Bytes

/-! ### Cut characters -/

/-- A continuation byte begins nothing. -/
theorem leading_continuation (bits : Nat) : leading (continuation bits).toNat = none := by
  have isByte := toNat_continuation bits
  unfold leading
  rw [if_neg (by omega), if_pos (by omega)]

/-- Each continuation byte that stands where a sequence should begin is replaced. -/
theorem decode_continuations {orphans : List UInt8}
    (continuations : ∀ byte ∈ orphans, ∃ bits, byte = continuation bits) (rest : List UInt8) :
    decode (orphans ++ rest) = List.replicate orphans.length replacement ++ decode rest := by
  induction orphans with
  | nil => rfl
  | cons byte orphans inductionHypothesis =>
    obtain ⟨⟨bits, rfl⟩, others⟩ := List.forall_mem_cons.mp continuations
    have first : decodeFirst (continuation bits) (orphans ++ rest) =
        (replacement, orphans ++ rest) := by
      unfold decodeFirst
      rw [leading_continuation]
    rw [List.cons_append, decode_cons, first, inductionHypothesis others]
    rfl

/-- A sequence that stops too early has no code point and leaves nothing. -/
theorem continued_of_cut {bits count low high code : Nat} {front : List UInt8} {byte : UInt8}
    {more : List UInt8}
    (whole : continued bits count low high (front ++ byte :: more) = (some code, [])) :
    continued bits count low high front = (none, []) := by
  induction front generalizing bits count low high with
  | nil =>
    cases count with
    | zero => cases whole
    | succ count => rfl
  | cons first front inductionHypothesis =>
    cases count with
    | zero => cases whole
    | succ count =>
      rw [List.cons_append, continued] at whole
      rw [continued]
      split at whole
      next accepted =>
        rw [if_pos accepted]
        exact inductionHypothesis whole
      next => cases whole

theorem decode_of_cut {char : CodePoint} {front back : List UInt8} {byte : UInt8}
    (isSome : (encodeChar char).isSome) (cut : charBytes char = front ++ byte :: back)
    (nonempty : front ≠ []) : decode front = [replacement] := by
  obtain ⟨first, following, isBytes, ⟨bits, count, low, high, leads, goesOn⟩, _⟩ :=
    charBytes_cases isSome
  obtain ⟨head, tail, rfl⟩ := List.exists_cons_of_ne_nil nonempty
  rw [isBytes, List.cons_append] at cut
  obtain ⟨rfl, rfl⟩ := List.cons.inj cut
  have whole := goesOn []
  rw [List.append_nil] at whole
  have early : decodeFirst first tail = (replacement, []) := by
    unfold decodeFirst
    rw [leads]
    dsimp only
    rw [continued_of_cut whole]
  rw [decode_cons, early, decode_nil]

/-! ### Slices of the bytes -/

/-- What stands behind so many bytes of a text: the bytes that are left of a character that is cut
there, and the characters after it. -/
def afterBytes : Text → Nat → Nat × Text
  | [], _ => (0, [])
  | char :: rest, count =>
    if count = 0 then (0, char :: rest)
    else if (charBytes char).length ≤ count then afterBytes rest (count - (charBytes char).length)
    else ((charBytes char).length - count, rest)

/-- The characters that are whole within so many bytes, and whether another one is cut. -/
def withinBytes : Text → Nat → Text × Bool
  | [], _ => ([], false)
  | char :: rest, count =>
    if count = 0 then ([], false)
    else if (charBytes char).length ≤ count then
      let inside := withinBytes rest (count - (charBytes char).length)
      (char :: inside.1, inside.2)
    else ([], true)

/-- The bytes of a text from a start to a stop, as they are read. -/
def shownSlice (value : Text) (start stop : Nat) : Text :=
  let behind := afterBytes value start
  let inside := withinBytes behind.2 (stop - start - behind.1)
  List.replicate (min behind.1 (stop - start)) replacement ++
    (inside.1 ++ if inside.2 then [replacement] else [])

section Slices

variable {value : Text} {start stop count : Nat}

theorem length_charBytes_pos {char : CodePoint} (isSome : (encodeChar char).isSome) :
    0 < (charBytes char).length := by
  obtain ⟨byte, following, isBytes, _⟩ := charBytes_cases isSome
  rw [isBytes]
  exact Nat.succ_pos _

theorem textBytes_cons (char : CodePoint) (rest : Text) :
    textBytes (char :: rest) = charBytes char ++ textBytes rest := List.flatMap_cons

theorem textBytes_append (front back : Text) :
    textBytes (front ++ back) = textBytes front ++ textBytes back := List.flatMap_append

/-- The bytes behind a position: continuation bytes of the cut character, then whole ones. -/
theorem drop_textBytes (encodable : Encodable value) (count : Nat) :
    ∃ orphans, (textBytes value).drop count = orphans ++ textBytes (afterBytes value count).2 ∧
      orphans.length = (afterBytes value count).1 ∧
      ∀ byte ∈ orphans, ∃ bits, byte = continuation bits := by
  fun_induction afterBytes value count with
  | case1 count => exact ⟨[], List.drop_nil, rfl, List.forall_mem_nil _⟩
  | case2 char rest => exact ⟨[], rfl, rfl, List.forall_mem_nil _⟩
  | case3 char rest count positive fits inductionHypothesis =>
    rw [textBytes_cons, List.drop_append, List.drop_eq_nil_of_le fits, List.nil_append]
    exact inductionHypothesis (List.forall_mem_cons.mp encodable).2
  | case4 char rest count positive tooLong =>
    obtain ⟨first, following, isBytes, _, continuations⟩ :=
      charBytes_cases (List.forall_mem_cons.mp encodable).1
    refine ⟨(charBytes char).drop count, ?_, List.length_drop, fun byte member => ?_⟩
    · rw [textBytes_cons, List.drop_append_of_le_length (by omega)]
    · obtain ⟨earlier, rfl⟩ := Nat.exists_eq_succ_of_ne_zero positive
      rw [isBytes, List.drop_succ_cons] at member
      exact continuations byte (List.mem_of_mem_drop member)

theorem decode_take_textBytes (encodable : Encodable value) (count : Nat) :
    decode ((textBytes value).take count) =
      (withinBytes value count).1 ++ if (withinBytes value count).2 then [replacement] else [] := by
  fun_induction withinBytes value count with
  | case1 count =>
    rw [textBytes, List.flatMap_nil, List.take_nil, decode_nil]
    rfl
  | case2 char rest =>
    rw [List.take_zero, decode_nil]
    rfl
  | case3 char rest count positive fits inside inductionHypothesis =>
    obtain ⟨isSome, others⟩ := List.forall_mem_cons.mp encodable
    have single : Encodable [char] := List.forall_mem_singleton.mpr isSome
    have alone : charBytes char = textBytes [char] := (List.flatMap_singleton _ _).symm
    rw [textBytes_cons, List.take_append, List.take_of_length_le fits, alone,
      decode_textBytes_append single, ← alone, inductionHypothesis others]
    rfl
  | case4 char rest count positive tooLong =>
    obtain ⟨isSome, others⟩ := List.forall_mem_cons.mp encodable
    have lengthTake : ((charBytes char).take count).length = count :=
      List.length_take_of_le (by omega)
    obtain ⟨byte, back, isCons⟩ : ∃ byte back, (charBytes char).drop count = byte :: back := by
      refine List.exists_cons_of_ne_nil fun isEmpty => ?_
      exact tooLong (List.drop_eq_nil_iff.mp isEmpty)
    have cut : charBytes char = (charBytes char).take count ++ byte :: back := by
      rw [← isCons, List.take_append_drop]
    rw [textBytes_cons, List.take_append_of_le_length (by omega), decode_of_cut isSome cut]
    · rfl
    · intro isEmpty
      rw [isEmpty] at lengthTake
      exact positive lengthTake.symm

theorem afterBytes_suffix (value : Text) (count : Nat) : (afterBytes value count).2 <:+ value := by
  fun_induction afterBytes value count with
  | case1 count => exact List.suffix_rfl
  | case2 char rest => exact List.suffix_rfl
  | case3 char rest count positive fits inductionHypothesis =>
    exact inductionHypothesis.trans (List.suffix_cons char rest)
  | case4 char rest count positive tooLong => exact List.suffix_cons char rest

theorem withinBytes_isPrefix (value : Text) (count : Nat) :
    (withinBytes value count).1 <+: value := by
  fun_induction withinBytes value count with
  | case1 count => exact List.nil_prefix
  | case2 char rest => exact List.nil_prefix
  | case3 char rest count positive fits inside inductionHypothesis =>
    exact (List.prefix_cons_inj char).mpr inductionHypothesis
  | case4 char rest count positive tooLong => exact List.nil_prefix

/-- The bytes of a slice are read as the slice is shown. -/
theorem decode_slice (encodable : Encodable value) (start stop : Nat) :
    decode (((textBytes value).drop start).take (stop - start)) = shownSlice value start stop := by
  obtain ⟨orphans, isDrop, length, continuations⟩ := drop_textBytes encodable start
  have others : Encodable (afterBytes value start).2 := fun char member =>
    encodable char ((afterBytes_suffix value start).subset member)
  have taken : ∀ byte ∈ orphans.take (stop - start), ∃ bits, byte = continuation bits :=
    fun byte member => continuations byte (List.mem_of_mem_take member)
  unfold shownSlice
  rw [isDrop, List.take_append, decode_continuations taken, decode_take_textBytes others,
    List.length_take, length, min_comm]

/-! ### Slices that cut no character -/

/-- No character is cut there. -/
def OnBoundary (value : Text) (count : Nat) : Prop := (afterBytes value count).1 = 0

theorem withinBytes_cut_iff (value : Text) (count : Nat) :
    (withinBytes value count).2 = false ↔ OnBoundary value count := by
  unfold OnBoundary
  fun_induction withinBytes value count with
  | case1 count => exact iff_of_true rfl rfl
  | case2 char rest => exact iff_of_true rfl rfl
  | case3 char rest count positive fits inside inductionHypothesis =>
    rw [afterBytes, if_neg positive, if_pos fits]
    exact inductionHypothesis
  | case4 char rest count positive tooLong =>
    rw [afterBytes, if_neg positive, if_neg tooLong]
    refine iff_of_false (fun same => Bool.false_ne_true same.symm) ?_
    dsimp only
    omega

theorem afterBytes_add (value : Text) (start count : Nat)
    (behind : (afterBytes value start).1 ≤ count) :
    afterBytes value (start + count) =
      afterBytes (afterBytes value start).2 (count - (afterBytes value start).1) := by
  fun_induction afterBytes value start with
  | case1 start => rfl
  | case2 char rest => rw [Nat.zero_add, Nat.sub_zero]
  | case3 char rest start positive fits inductionHypothesis =>
    rw [afterBytes, if_neg (by omega), if_pos (by omega), Nat.sub_add_comm fits]
    exact inductionHypothesis behind
  | case4 char rest start positive tooLong =>
    dsimp only at behind ⊢
    rw [afterBytes, if_neg (by omega), if_pos (by omega)]
    congr 1
    omega

/-- A slice between two boundaries is a part of the text. -/
theorem shownSlice_isInfix (startWhole : OnBoundary value start) (stopWhole : OnBoundary value stop)
    (forward : start ≤ stop) : shownSlice value start stop <:+: value := by
  have noOrphans : (afterBytes value start).1 = 0 := startWhole
  have behind := afterBytes_add value start (stop - start) (by omega)
  rw [Nat.add_sub_cancel' forward, noOrphans, Nat.sub_zero] at behind
  have notCut : (withinBytes (afterBytes value start).2 (stop - start)).2 = false := by
    rw [withinBytes_cut_iff, OnBoundary, ← behind]
    exact stopWhole
  unfold shownSlice
  dsimp only
  rw [noOrphans, Nat.sub_zero, notCut, Nat.zero_min, List.replicate_zero, List.nil_append,
    if_neg Bool.false_ne_true, List.append_nil]
  exact (withinBytes_isPrefix _ _).isInfix.trans (afterBytes_suffix value start).isInfix

/-- A slice that cuts a character shows a replacement character. -/
theorem replacement_mem_shownSlice (forward : start < stop)
    (cut : ¬ (OnBoundary value start ∧ OnBoundary value stop)) :
    replacement ∈ shownSlice value start stop := by
  unfold shownSlice
  dsimp only
  by_cases startWhole : OnBoundary value start
  · have noOrphans : (afterBytes value start).1 = 0 := startWhole
    have behind := afterBytes_add value start (stop - start) (by omega)
    rw [Nat.add_sub_cancel' forward.le, noOrphans, Nat.sub_zero] at behind
    have isCut : (withinBytes (afterBytes value start).2 (stop - start)).2 = true := by
      rw [← Bool.not_eq_false, withinBytes_cut_iff, OnBoundary, ← behind]
      exact fun stopWhole => cut ⟨startWhole, stopWhole⟩
    rw [noOrphans, Nat.sub_zero, isCut, if_pos rfl]
    exact List.mem_append_right _ (List.mem_append_right _ (List.mem_singleton_self _))
  · have orphans : (afterBytes value start).1 ≠ 0 := startWhole
    exact List.mem_append_left _ <| List.mem_replicate.mpr ⟨by omega, rfl⟩

/-! ### Parts within a slice -/

theorem afterBytes_append {front : Text} (back : Text)
    (inside : count ≤ (textBytes front).length) :
    ∃ kept, (afterBytes (front ++ back) count).2 = kept ++ back ∧
      count + (afterBytes (front ++ back) count).1 + (textBytes kept).length =
        (textBytes front).length := by
  induction front generalizing count with
  | nil =>
    have isZero : count = 0 := Nat.le_zero.mp inside
    cases back with
    | nil => exact ⟨[], rfl, isZero ▸ rfl⟩
    | cons char rest =>
      rw [isZero]
      exact ⟨[], rfl, rfl⟩
  | cons char front inductionHypothesis =>
    rw [textBytes_cons, List.length_append] at inside ⊢
    rw [List.cons_append, afterBytes]
    split
    next isZero =>
      refine ⟨char :: front, rfl, ?_⟩
      rw [textBytes_cons, List.length_append]
      omega
    next positive =>
      split
      next fits =>
        have insideRest : count - (charBytes char).length ≤ (textBytes front).length := by omega
        obtain ⟨kept, isKept, sum⟩ := inductionHypothesis insideRest
        exact ⟨kept, isKept, by omega⟩
      next tooLong =>
        refine ⟨front, rfl, ?_⟩
        dsimp only
        omega

theorem withinBytes_append {front : Text} (encodable : Encodable front) (back : Text)
    (inside : (textBytes front).length ≤ count) :
    (withinBytes (front ++ back) count).1 =
      front ++ (withinBytes back (count - (textBytes front).length)).1 := by
  induction front generalizing count with
  | nil => rfl
  | cons char front inductionHypothesis =>
    obtain ⟨isSome, others⟩ := List.forall_mem_cons.mp encodable
    have positive := length_charBytes_pos isSome
    rw [textBytes_cons, List.length_append] at inside ⊢
    have insideRest : (textBytes front).length ≤ count - (charBytes char).length := by omega
    rw [List.cons_append, withinBytes, if_neg (by omega), if_pos (by omega)]
    dsimp only
    rw [inductionHypothesis others insideRest, Nat.sub_sub, List.cons_append]

/-- What stands within a slice is read as it is. -/
theorem infix_shownSlice {front part back : Text} (encodable : Encodable (front ++ (part ++ back)))
    (starts : start ≤ (textBytes front).length)
    (stops : (textBytes front).length + (textBytes part).length ≤ stop) :
    part <:+: shownSlice (front ++ (part ++ back)) start stop := by
  obtain ⟨kept, isKept, sum⟩ := afterBytes_append (part ++ back) starts
  have behind : kept ++ (part ++ back) <:+ front ++ (part ++ back) :=
    isKept ▸ afterBytes_suffix _ _
  have others : Encodable (kept ++ part) := by
    intro char member
    refine encodable char (behind.subset ?_)
    rw [← List.append_assoc]
    exact List.mem_append_left _ member
  unfold shownSlice
  dsimp only
  rw [isKept, ← List.append_assoc kept part back, withinBytes_append others]
  · have inWhole : ∀ more : Text, part <:+: (kept ++ part) ++ more :=
      fun more => ⟨kept, more, rfl⟩
    exact (inWhole _).trans
      ((List.prefix_append _ _).isInfix.trans (List.suffix_append _ _).isInfix)
  · rw [textBytes_append, List.length_append]
    omega

end Slices

end LiteHorse.Utf8
