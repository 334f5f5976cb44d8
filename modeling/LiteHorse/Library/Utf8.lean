/-
This file is about UTF-8. `encode` writes a text and has no bytes for a surrogate; `decode` reads
bytes and puts a replacement character where they are not a code point's: one for each longest
start of a sequence that cannot go on, after which it begins anew.

A text that is encoded is decoded to itself, whatever follows (`decode_encode_append`).
-/

import LiteHorse.Library.JsonString

namespace LiteHorse.Utf8

open JsonTexts

/-! ### Writing -/

/-- The six bits of a continuation byte. -/
def continuation (bits : Nat) : UInt8 := UInt8.ofNat (0x80 + bits % 0x40)

/-- The bytes of a code point. -/
def encodeChar (char : CodePoint) : Option (List UInt8) :=
  let code := char.val
  if code < 0x80 then some [UInt8.ofNat code]
  else if code < 0x800 then some [UInt8.ofNat (0xc0 + code / 0x40), continuation code]
  else if isHigh code || isLow code then none
  else if code < 0x10000 then
    some [UInt8.ofNat (0xe0 + code / 0x1000), continuation (code / 0x40), continuation code]
  else
    some [UInt8.ofNat (0xf0 + code / 0x40000), continuation (code / 0x1000),
      continuation (code / 0x40), continuation code]

/-- `str.encode`; `none` where it raises. -/
def encode : Text → Option (List UInt8)
  | [] => some []
  | char :: rest => do
    let first ← encodeChar char
    let more ← encode rest
    return first ++ more

/-! ### Reading -/

/-- What a first byte begins: the bits it has, the number of bytes that follow, and the range of
the next one, which leaves out what has a shorter sequence, surrogates and what is too large. -/
def leading (byte : Nat) : Option (Nat × Nat × Nat × Nat) :=
  if byte < 0x80 then some (byte, 0, 0x80, 0xbf)
  else if byte < 0xc2 then none
  else if byte < 0xe0 then some (byte - 0xc0, 1, 0x80, 0xbf)
  else if byte = 0xe0 then some (0, 2, 0xa0, 0xbf)
  else if byte = 0xed then some (0xd, 2, 0x80, 0x9f)
  else if byte < 0xf0 then some (byte - 0xe0, 2, 0x80, 0xbf)
  else if byte = 0xf0 then some (0, 3, 0x90, 0xbf)
  else if byte < 0xf4 then some (byte - 0xf0, 3, 0x80, 0xbf)
  else if byte = 0xf4 then some (4, 3, 0x80, 0x8f)
  else none

/-- The bytes that follow, with the bits so far: the code point if they are there, and what is left
of the bytes. -/
def continued : (bits count low high : Nat) → List UInt8 → Option Nat × List UInt8
  | bits, 0, _, _, bytes => (some bits, bytes)
  | _, _ + 1, _, _, [] => (none, [])
  | bits, count + 1, low, high, byte :: rest =>
    if low ≤ byte.toNat ∧ byte.toNat ≤ high then
      continued (bits * 0x40 + (byte.toNat - 0x80)) count 0x80 0xbf rest
    else (none, byte :: rest)

def replacement : CodePoint := ⟨0xfffd, by decide⟩

/-- The first code point of the bytes, and what is left of them. -/
def decodeFirst (byte : UInt8) (rest : List UInt8) : CodePoint × List UInt8 :=
  match leading byte.toNat with
  | none => (replacement, rest)
  | some (bits, count, low, high) =>
    match continued bits count low high rest with
    | (some code, left) => (ofCode code, left)
    | (none, left) => (replacement, left)

theorem length_continued (bits count low high : Nat) (bytes : List UInt8) :
    (continued bits count low high bytes).2.length ≤ bytes.length := by
  induction bytes generalizing bits count low high with
  | nil => cases count <;> exact Nat.le_refl _
  | cons byte rest inductionHypothesis =>
    cases count with
    | zero => exact Nat.le_refl _
    | succ count =>
      unfold continued
      split
      · exact Nat.le_succ_of_le (inductionHypothesis _ _ _ _)
      · exact Nat.le_refl _

theorem length_decodeFirst (byte : UInt8) (rest : List UInt8) :
    (decodeFirst byte rest).2.length ≤ rest.length := by
  unfold decodeFirst
  split
  · exact Nat.le_refl _
  next bits count low high _ =>
    have shorter := length_continued bits count low high rest
    split
    · next same => rwa [same] at shorter
    · next same => rwa [same] at shorter

/-- `bytes.decode("utf-8", errors="replace")` -/
def decode : List UInt8 → Text
  | [] => []
  | byte :: rest =>
    have := length_decodeFirst byte rest
    (decodeFirst byte rest).1 :: decode (decodeFirst byte rest).2
termination_by bytes => bytes.length
decreasing_by exact Nat.lt_succ_of_le this

theorem decode_cons (byte : UInt8) (rest : List UInt8) :
    decode (byte :: rest) = (decodeFirst byte rest).1 :: decode (decodeFirst byte rest).2 := by
  rw [decode]

/-! ### The round trip -/

theorem toNat_ofNat {value : Nat} (small : value < 256) : (UInt8.ofNat value).toNat = value := by
  rw [UInt8.toNat_ofNat']
  exact Nat.mod_eq_of_lt small

theorem toNat_continuation (bits : Nat) : (continuation bits).toNat = 0x80 + bits % 0x40 :=
  toNat_ofNat (by omega)

theorem continued_cons {bits count low high : Nat} {byte : UInt8} (rest : List UInt8)
    (atLeast : low ≤ byte.toNat) (atMost : byte.toNat ≤ high) :
    continued bits (count + 1) low high (byte :: rest) =
      continued (bits * 0x40 + (byte.toNat - 0x80)) count 0x80 0xbf rest := by
  rw [continued, if_pos ⟨atLeast, atMost⟩]

theorem continued_continuation (bits count code : Nat) (rest : List UInt8) :
    continued bits (count + 1) 0x80 0xbf (continuation code :: rest) =
      continued (bits * 0x40 + code % 0x40) count 0x80 0xbf rest := by
  have isByte := toNat_continuation code
  rw [continued_cons rest (by omega) (by omega), isByte, Nat.add_sub_cancel_left]

theorem decodeFirst_of_continued {byte : UInt8} {rest left : List UInt8} {char : CodePoint}
    {bits count low high : Nat} (leads : leading byte.toNat = some (bits, count, low, high))
    (goesOn : continued bits count low high rest = (some char.val, left)) :
    decodeFirst byte rest = (char, left) := by
  unfold decodeFirst
  rw [leads]
  dsimp only
  rw [goesOn]
  exact Prod.ext (Fin.ext (Nat.mod_eq_of_lt char.isLt)) rfl

theorem leading_two : ∀ bits : Fin 0x20, 2 ≤ bits.val →
    leading (0xc0 + bits) = some (bits.val, 1, 0x80, 0xbf) := by
  decide

theorem leading_three : ∀ bits : Fin 0x10, leading (0xe0 + bits) =
    some (bits.val, 2, if bits.val = 0 then 0xa0 else 0x80,
      if bits.val = 0xd then 0x9f else 0xbf) := by
  decide

theorem leading_four : ∀ bits : Fin 5, leading (0xf0 + bits) =
    some (bits.val, 3, if bits.val = 0 then 0x90 else 0x80,
      if bits.val = 4 then 0x8f else 0xbf) := by
  decide

/-- The bytes begin a sequence that has the code point, whatever follows. -/
def Begins (char : CodePoint) (byte : UInt8) (following : List UInt8) : Prop :=
  ∃ bits count low high, leading byte.toNat = some (bits, count, low, high) ∧
    ∀ rest, continued bits count low high (following ++ rest) = (some char.val, rest)

section Sequences

variable {char : CodePoint}

theorem begins_one (small : char.val < 0x80) : Begins char (UInt8.ofNat char.val) [] := by
  refine ⟨char.val, 0, 0x80, 0xbf, ?_, fun rest => rfl⟩
  rw [toNat_ofNat (by omega), leading, if_pos small]

theorem begins_two (large : 0x80 ≤ char.val) (small : char.val < 0x800) :
    Begins char (UInt8.ofNat (0xc0 + char.val / 0x40)) [continuation char.val] := by
  have leads := leading_two ⟨char / 0x40, by omega⟩ (by show 2 ≤ char.val / 0x40; omega)
  refine ⟨_, _, _, _, (congrArg leading (toNat_ofNat (by omega))).trans leads, fun rest => ?_⟩
  rw [List.singleton_append, continued_continuation]
  refine Prod.ext (congrArg some ?_) rfl
  show char.val / 0x40 * 0x40 + char.val % 0x40 = char.val
  omega

/-- The ranges of the second byte leave the code points above 0x7ff that are no surrogates. -/
theorem begins_three (large : 0x800 ≤ char.val) (small : char.val < 0x10000)
    (noSurrogate : ¬ (0xd800 ≤ char.val ∧ char.val ≤ 0xdfff)) :
    Begins char (UInt8.ofNat (0xe0 + char.val / 0x1000))
      [continuation (char.val / 0x40), continuation char.val] := by
  have leads := leading_three ⟨char / 0x1000, by omega⟩
  have second := toNat_continuation (char.val / 0x40)
  refine ⟨_, _, _, _, (congrArg leading (toNat_ofNat (by omega))).trans leads, fun rest => ?_⟩
  dsimp only
  rw [List.cons_append, continued_cons, second, List.singleton_append, continued_continuation]
  · refine Prod.ext (congrArg some ?_) rfl
    show (char.val / 0x1000 * 0x40 + (0x80 + char.val / 0x40 % 0x40 - 0x80)) * 0x40 +
      char.val % 0x40 = char.val
    omega
  · rw [second]
    split <;> omega
  · rw [second]
    split <;> omega

theorem begins_four (large : 0x10000 ≤ char.val) :
    Begins char (UInt8.ofNat (0xf0 + char.val / 0x40000))
      [continuation (char.val / 0x1000), continuation (char.val / 0x40),
        continuation char.val] := by
  have bound := char.isLt
  have leads := leading_four ⟨char / 0x40000, by omega⟩
  have second := toNat_continuation (char.val / 0x1000)
  refine ⟨_, _, _, _, (congrArg leading (toNat_ofNat (by omega))).trans leads, fun rest => ?_⟩
  dsimp only
  rw [List.cons_append, continued_cons, second, List.cons_append, continued_continuation,
    List.singleton_append, continued_continuation]
  · refine Prod.ext (congrArg some ?_) rfl
    show ((char.val / 0x40000 * 0x40 + (0x80 + char.val / 0x1000 % 0x40 - 0x80)) * 0x40 +
      char.val / 0x40 % 0x40) * 0x40 + char.val % 0x40 = char.val
    omega
  · rw [second]
    split <;> omega
  · rw [second]
    split <;> omega

/-- The bytes of a code point are a first one and continuation bytes. -/
theorem begins_of_encodeChar {bytes : List UInt8} (encoded : encodeChar char = some bytes) :
    ∃ byte following, bytes = byte :: following ∧ Begins char byte following ∧
      ∀ other ∈ following, ∃ bits, other = continuation bits := by
  unfold encodeChar at encoded
  dsimp only at encoded
  split at encoded
  next small =>
    cases encoded
    exact ⟨_, _, rfl, begins_one small, fun _ member => absurd member List.not_mem_nil⟩
  next large =>
    split at encoded
    next small =>
      cases encoded
      exact ⟨_, _, rfl, begins_two (by omega) small, List.forall_mem_singleton.mpr ⟨_, rfl⟩⟩
    next larger =>
      split at encoded
      · cases encoded
      next noSurrogate =>
        rw [Bool.or_eq_true, isHigh_iff, isLow_iff] at noSurrogate
        split at encoded
        next small =>
          cases encoded
          refine ⟨_, _, rfl, begins_three (by omega) small (by omega), ?_⟩
          exact List.forall_mem_cons.mpr ⟨⟨_, rfl⟩, List.forall_mem_singleton.mpr ⟨_, rfl⟩⟩
        next largest =>
          cases encoded
          refine ⟨_, _, rfl, begins_four (by omega), ?_⟩
          exact List.forall_mem_cons.mpr ⟨⟨_, rfl⟩,
            List.forall_mem_cons.mpr ⟨⟨_, rfl⟩, List.forall_mem_singleton.mpr ⟨_, rfl⟩⟩⟩

end Sequences

/-- A code point is the first of its bytes. -/
theorem decode_encodeChar {char : CodePoint} {bytes : List UInt8}
    (encoded : encodeChar char = some bytes) (rest : List UInt8) :
    decode (bytes ++ rest) = char :: decode rest := by
  obtain ⟨byte, following, rfl, ⟨bits, count, low, high, leads, goesOn⟩, _⟩ :=
    begins_of_encodeChar encoded
  rw [List.cons_append, decode_cons, decodeFirst_of_continued leads (goesOn rest)]

/-- A text that is encoded is decoded to itself, whatever follows. -/
theorem decode_encode_append {value : Text} {bytes : List UInt8}
    (encoded : encode value = some bytes) (rest : List UInt8) :
    decode (bytes ++ rest) = value ++ decode rest := by
  induction value generalizing bytes with
  | nil =>
    cases encoded
    rfl
  | cons char value inductionHypothesis =>
    obtain ⟨first, isFirst, encoded⟩ := Option.bind_eq_some_iff.mp encoded
    obtain ⟨more, isMore, same⟩ := Option.bind_eq_some_iff.mp encoded
    cases same
    rw [List.append_assoc, decode_encodeChar isFirst, inductionHypothesis isMore, List.cons_append]

theorem decode_nil : decode [] = [] := by
  rw [decode]

theorem decode_encode {value : Text} {bytes : List UInt8} (encoded : encode value = some bytes) :
    decode bytes = value := by
  have decoded := decode_encode_append encoded []
  rwa [List.append_nil, decode_nil, List.append_nil] at decoded

/-! ### What can be written -/

/-- A surrogate has no bytes, every other code point has. -/
theorem encodeChar_isSome_iff (char : CodePoint) :
    (encodeChar char).isSome ↔ ¬ (isHigh char = true ∨ isLow char = true) := by
  unfold encodeChar
  dsimp only
  rw [← Bool.or_eq_true]
  split
  next small =>
    refine iff_of_true rfl fun surrogate => ?_
    rw [Bool.or_eq_true, isHigh_iff, isLow_iff] at surrogate
    omega
  split
  next small =>
    refine iff_of_true rfl fun surrogate => ?_
    rw [Bool.or_eq_true, isHigh_iff, isLow_iff] at surrogate
    omega
  split
  next surrogate => exact iff_of_false Bool.false_ne_true (not_not_intro surrogate)
  next noSurrogate => split <;> exact iff_of_true rfl noSurrogate

theorem encode_isSome_iff (value : Text) :
    (encode value).isSome ↔ ∀ char ∈ value, ¬ (isHigh char = true ∨ isLow char = true) := by
  induction value with
  | nil => exact iff_of_true rfl (fun _ member => absurd member List.not_mem_nil)
  | cons char value inductionHypothesis =>
    rw [List.forall_mem_cons, ← encodeChar_isSome_iff, ← inductionHypothesis]
    show ((encodeChar char).bind fun bytes => (encode value).bind fun more =>
      some (bytes ++ more)).isSome ↔ _
    cases encodeChar char with
    | none => exact iff_of_false Bool.false_ne_true fun both => Bool.false_ne_true both.1
    | some bytes =>
      cases encode value with
      | none => exact iff_of_false Bool.false_ne_true fun both => Bool.false_ne_true both.2
      | some more => exact iff_of_true rfl ⟨rfl, rfl⟩

/-- A string has no surrogates. -/
theorem noSurrogate_text (value : String) :
    ∀ char ∈ text value, ¬ (isHigh char = true ∨ isLow char = true) := by
  intro char member
  obtain ⟨source, _, rfl⟩ := List.mem_map.mp member
  have valid : source.toNat < 0xd800 ∨ 0xdfff < source.toNat ∧ source.toNat < 0x110000 :=
    source.valid
  rw [isHigh_iff, isLow_iff]
  show ¬ (0xd800 ≤ source.toNat ∧ source.toNat ≤ 0xdbff ∨
    0xdc00 ≤ source.toNat ∧ source.toNat ≤ 0xdfff)
  omega

end LiteHorse.Utf8
