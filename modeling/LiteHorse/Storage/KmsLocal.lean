/-
This file models `LocalKms`: a ciphertext is the length of the serialized context, the context and
a Fernet token of the context, a zero byte and the plaintext.

Fernet is a parameter, and what is used of it is that it accepts the tokens that were made and no
others (`Authenticated`). A token that is accepted then has the context of its call before the
first zero byte, for the serialized context is printable (`decrypt_eq_ok`). Whether this is the
context of the reader is a comparison of texts, and texts are equal for equal contexts only, as
long as no string has two surrogates in a row that make a character (`serializeContext_inj`).
-/

import LiteHorse.Library.JsonSorted
import LiteHorse.Library.Utf8

namespace LiteHorse.Storage.KmsLocal

open JsonTexts Sorting

/-! ### Contexts -/

/-- A `dict[str, str]`. -/
structure Context where
  entries : List (Text × Text)
  distinct : (entries.map Prod.fst).Nodup

namespace Context

/-- Dictionaries are equal whatever the order of their keys. -/
def Same (first second : Context) : Prop := first.entries.Perm second.entries

instance (first second : Context) : Decidable (first.Same second) :=
  inferInstanceAs (Decidable (List.Perm _ _))

def HasUserId (context : Context) : Prop := text "user_id" ∈ context.entries.map Prod.fst

instance (context : Context) : Decidable context.HasUserId :=
  inferInstanceAs (Decidable (_ ∈ _))

/-- No string has a high surrogate directly before a low one. -/
def Unsplit (context : Context) : Prop :=
  ∀ entry ∈ context.entries, NoSplitPair entry.1 ∧ NoSplitPair entry.2

def field (entry : Text × Text) : Text × Json Empty := (entry.1, .str entry.2)

def json (context : Context) : Json Empty := .object (context.entries.map field)

end Context

/-- There are no floats in a context. -/
def noFloats : FloatFormat Empty where
  parse _ := .nan
  repr value := value.elim
  isFloat value := value.elim
  parse_repr value := value.elim

/-- `_serialize_context`. The text of `json.dumps` is ASCII, so `encode` does not raise. -/
def serializeContext (context : Context) : List UInt8 :=
  (Utf8.encode (context.json.sortKeys.dumps noFloats)).getD []

/-! ### The service -/

inductive KmsError where
  | valueError (message : String)
  | kmsDecryptError (message : String)
  /-- `struct.error`, of a length that four bytes do not hold. -/
  | structError
  deriving DecidableEq

/-- The key, with what `cryptography` makes of it: `encrypt` takes the time and random bytes, and
`decrypt` is `none` where it raises `InvalidToken`. -/
structure Fernet (Entropy : Type) where
  encrypt : Entropy → List UInt8 → List UInt8
  decrypt : List UInt8 → Option (List UInt8)

/-- `struct.pack(">I", number)` -/
def packLength (number : Nat) : Except KmsError (List UInt8) :=
  if number < 0x100000000 then
    .ok [UInt8.ofNat (number / 0x1000000), UInt8.ofNat (number / 0x10000 % 0x100),
      UInt8.ofNat (number / 0x100 % 0x100), UInt8.ofNat (number % 0x100)]
  else .error .structError

/-- `struct.unpack(">I", bytes)` -/
def unpackLength : List UInt8 → Option Nat
  | [first, second, third, fourth] =>
    some (((first.toNat * 0x100 + second.toNat) * 0x100 + third.toNat) * 0x100 + fourth.toNat)
  | _ => none

/-- A call of `LocalKms.encrypt`. -/
structure EncryptCall (Entropy : Type) where
  entropy : Entropy
  plaintext : List UInt8
  context : Context

variable {Entropy : Type}

/-- What Fernet is given to encrypt. -/
def EncryptCall.blob (call : EncryptCall Entropy) : List UInt8 :=
  serializeContext call.context ++ 0 :: call.plaintext

section Service

variable (fernet : Fernet Entropy)

/-- `LocalKms.encrypt` -/
def encrypt (call : EncryptCall Entropy) : Except KmsError (List UInt8) := do
  if ¬ call.context.HasUserId then
    throw (.valueError "EncryptionContext must include 'user_id'")
  let ctxBytes := serializeContext call.context
  let token := fernet.encrypt call.entropy call.blob
  let length ← packLength ctxBytes.length
  return length ++ ctxBytes ++ token

/-- `LocalKms.decrypt` -/
def decrypt (ciphertext : List UInt8) (context : Context) : Except KmsError (List UInt8) :=
  if ¬ context.HasUserId then .error (.valueError "EncryptionContext must include 'user_id'")
  else
    match unpackLength (ciphertext.take 4) with
    | none => .error (.kmsDecryptError "ciphertext too short")
    | some ctxLen =>
      let storedCtx := (ciphertext.drop 4).take ctxLen
      let token := ciphertext.drop (4 + ctxLen)
      if storedCtx ≠ serializeContext context then
        .error (.kmsDecryptError "EncryptionContext mismatch")
      else
        match fernet.decrypt token with
        | none => .error (.kmsDecryptError "fernet decryption failed")
        | some blob =>
          match blob.findIdx? (· = 0) with
          | none => .error (.kmsDecryptError "inner context tampered")
          | some sep =>
            if blob.take sep ≠ storedCtx then .error (.kmsDecryptError "inner context tampered")
            else .ok (blob.drop (sep + 1))

/-- Authenticated encryption: `decrypt` accepts exactly the tokens that the calls made, and returns
what they are of. Calls without a user make none. -/
def Authenticated (calls : List (EncryptCall Entropy)) : Prop :=
  ∀ token blob, fernet.decrypt token = some blob ↔
    ∃ call ∈ calls, call.context.HasUserId ∧ call.blob = blob ∧
      fernet.encrypt call.entropy call.blob = token

end Service

/-! ### The serialized context -/

section Serialized

variable {context other : Context}

/-- The text is one byte a character, none of them zero. -/
theorem encode_printable {value : Text} (printable : ∀ char ∈ value, Printable char) :
    ∃ bytes, Utf8.encode value = some bytes ∧ bytes.length = value.length ∧ 0 ∉ bytes := by
  induction value with
  | nil => exact ⟨[], rfl, rfl, List.not_mem_nil⟩
  | cons char value inductionHypothesis =>
    obtain ⟨isPrintable, printable⟩ := List.forall_mem_cons.mp printable
    obtain ⟨bytes, encoded, length, noZero⟩ := inductionHypothesis printable
    have small : char.val < 0x80 := Nat.lt_of_le_of_lt isPrintable.2 (by decide)
    have first : Utf8.encodeChar char = some [UInt8.ofNat char.val] := if_pos small
    refine ⟨UInt8.ofNat char.val :: bytes, ?_, ?_, ?_⟩
    · rw [Utf8.encode, first, encoded]
      rfl
    · rw [List.length_cons, List.length_cons, length]
    · rw [List.mem_cons, not_or]
      refine ⟨fun isZero => ?_, noZero⟩
      have same := congrArg UInt8.toNat isZero
      rw [Utf8.toNat_ofNat (by omega)] at same
      have atLeast := isPrintable.1
      rw [← same] at atLeast
      exact absurd atLeast (by decide)

theorem encode_serialized (context : Context) :
    Utf8.encode (context.json.sortKeys.dumps noFloats) = some (serializeContext context) ∧
      (serializeContext context).length = (context.json.sortKeys.dumps noFloats).length ∧
      0 ∉ serializeContext context := by
  obtain ⟨bytes, encoded, length, noZero⟩ :=
    encode_printable (printable_dumps noFloats context.json.sortKeys)
  have isBytes : serializeContext context = bytes := by
    unfold serializeContext
    rw [encoded]
    rfl
  rw [isBytes]
  exact ⟨encoded, length, noZero⟩

theorem map_fst_fields (context : Context) :
    (context.entries.map Context.field).map Prod.fst = context.entries.map Prod.fst := by
  rw [List.map_map]
  rfl

theorem sortFields_fields (context : Context) :
    sortFields (context.entries.map Context.field) = context.entries.map Context.field := by
  rw [sortFields_eq, List.map_map]
  rfl

/-- Equal contexts have the same text. -/
theorem serializeContext_of_same (same : context.Same other) :
    serializeContext context = serializeContext other := by
  have sorted : sortedBy Prod.fst (context.entries.map Context.field) =
      sortedBy Prod.fst (other.entries.map Context.field) := by
    have perm := same.map Context.field
    refine eq_of_perm_of_sorted Prod.fst ?_ ?_ (sortedBy_pairwise _ _) (sortedBy_pairwise _ _)
    · exact ((sortedBy_perm _ _).trans perm).trans (sortedBy_perm _ _).symm
    · rw [((sortedBy_perm Prod.fst (other.entries.map Context.field)).map Prod.fst).nodup_iff,
        map_fst_fields]
      exact other.distinct
  unfold serializeContext Context.json Json.sortKeys
  rw [sortFields_fields, sortFields_fields, sorted]

/-- Where no string is split, the text is read back. -/
theorem loads_serialized (unsplit : context.Unsplit) :
    loads noFloats 0 1 (context.json.sortKeys.dumps noFloats) = .ok context.json.sortKeys := by
  refine loads_dumps noFloats 0 ?_ ?_
  · rw [depth_sortKeys]
    refine Nat.succ_le_succ (depthFields_le_iff.mpr fun field member => ?_)
    obtain ⟨entry, _, rfl⟩ := List.mem_map.mp member
    exact Nat.le_refl 0
  · unfold Context.json Json.sortKeys
    rw [sortFields_fields]
    have fields : ∀ field ∈ sortedBy Prod.fst (context.entries.map Context.field),
        ∃ entry ∈ context.entries, Context.field entry = field := fun field member =>
      List.mem_map.mp ((mem_sortedBy _ _ _).mp member)
    refine ⟨⟨?_, fun field member => ?_⟩, everywhereFields_iff.mpr fun field member => ?_⟩
    · rw [((sortedBy_perm Prod.fst (context.entries.map Context.field)).map Prod.fst).nodup_iff,
        map_fst_fields]
      exact context.distinct
    · obtain ⟨entry, isEntry, rfl⟩ := fields field member
      exact (unsplit entry isEntry).1
    · obtain ⟨entry, isEntry, rfl⟩ := fields field member
      exact (unsplit entry isEntry).2

theorem field_injective : Function.Injective Context.field := by
  intro first second same
  have key := congrArg Prod.fst same
  have value := congrArg Prod.snd same
  exact Prod.ext key (Json.str.inj value)

/-- Contexts with the same text are equal, where no string is split. -/
theorem serializeContext_inj (unsplit : context.Unsplit) (otherUnsplit : other.Unsplit) :
    serializeContext context = serializeContext other ↔ context.Same other := by
  refine ⟨fun same => ?_, serializeContext_of_same⟩
  have decoded := Utf8.decode_encode (encode_serialized context).1
  rw [same, Utf8.decode_encode (encode_serialized other).1] at decoded
  have read := loads_serialized unsplit
  rw [← decoded, loads_serialized otherUnsplit] at read
  have sorted : sortedBy Prod.fst (other.entries.map Context.field) =
      sortedBy Prod.fst (context.entries.map Context.field) := by
    have objects := Except.ok.inj read
    unfold Context.json Json.sortKeys at objects
    rw [sortFields_fields, sortFields_fields] at objects
    exact Json.object.inj objects
  have perm := (sortedBy_perm Prod.fst (context.entries.map Context.field)).symm
  rw [← sorted] at perm
  exact (List.map_perm_map_iff field_injective).mp (perm.trans (sortedBy_perm _ _))

end Serialized

/-! ### The record -/

theorem unpackLength_packLength {number : Nat} {bytes : List UInt8}
    (packed : packLength number = .ok bytes) :
    bytes.length = 4 ∧ unpackLength bytes = some number := by
  unfold packLength at packed
  split at packed
  next small =>
    cases packed
    refine ⟨rfl, congrArg some ?_⟩
    rw [Utf8.toNat_ofNat (by omega), Utf8.toNat_ofNat (by omega), Utf8.toNat_ofNat (by omega),
      Utf8.toNat_ofNat (by omega)]
    omega
  next => cases packed

/-- The zero byte behind the context is the first. -/
theorem findIdx?_zero {ctxBytes : List UInt8} (noZero : 0 ∉ ctxBytes) (plaintext : List UInt8) :
    (ctxBytes ++ 0 :: plaintext).findIdx? (· = 0) = some ctxBytes.length := by
  have none : ctxBytes.findIdx? (· = 0) = none := by
    rw [List.findIdx?_eq_none_iff]
    exact fun byte member => decide_eq_false fun isZero => noZero (isZero ▸ member)
  rw [List.findIdx?_append, none, List.findIdx?_cons, if_pos (decide_eq_true rfl)]
  exact congrArg some (Nat.zero_add _)

theorem drop_zero (ctxBytes plaintext : List UInt8) :
    (ctxBytes ++ 0 :: plaintext).drop (ctxBytes.length + 1) = plaintext := by
  rw [← List.drop_drop, List.drop_left]
  rfl

section Records

variable {fernet : Fernet Entropy} {calls : List (EncryptCall Entropy)}

/-- What is decrypted was encrypted in a call, under a context with the same text. -/
theorem decrypt_eq_ok (authenticated : Authenticated fernet calls) {ciphertext : List UInt8}
    {context : Context} {plaintext : List UInt8}
    (decrypted : decrypt fernet ciphertext context = .ok plaintext) :
    ∃ call ∈ calls, call.plaintext = plaintext ∧
      serializeContext call.context = serializeContext context := by
  unfold decrypt at decrypted
  split at decrypted
  · cases decrypted
  split at decrypted
  · cases decrypted
  next ctxLen _ =>
    dsimp only at decrypted
    split at decrypted
    · cases decrypted
    next sameContext =>
      split at decrypted
      · cases decrypted
      next blob accepted =>
        obtain ⟨call, isCall, _, rfl, _⟩ := (authenticated _ _).mp accepted
        unfold EncryptCall.blob at decrypted
        rw [findIdx?_zero (encode_serialized call.context).2.2] at decrypted
        dsimp only at decrypted
        rw [List.take_left] at decrypted
        split at decrypted
        · cases decrypted
        next sameInside =>
          refine ⟨call, isCall, ?_, (not_not.mp sameInside).trans (not_not.mp sameContext)⟩
          rw [drop_zero] at decrypted
          exact Except.ok.inj decrypted

/-- A call with a user makes a ciphertext, if four bytes hold the length of its context. -/
theorem encrypt_eq {call : EncryptCall Entropy} (hasUserId : call.context.HasUserId) :
    encrypt fernet call = (packLength (serializeContext call.context).length).map fun length =>
      length ++ serializeContext call.context ++ fernet.encrypt call.entropy call.blob := by
  unfold encrypt
  rw [if_neg (not_not_intro hasUserId)]
  dsimp only
  cases packLength (serializeContext call.context).length <;> rfl

/-- A ciphertext is decrypted under the contexts with the same text, and under no others. -/
theorem decrypt_encrypt (authenticated : Authenticated fernet calls) {call : EncryptCall Entropy}
    (isCall : call ∈ calls) (called : call.context.HasUserId) {ciphertext : List UInt8}
    (encrypted : encrypt fernet call = .ok ciphertext) {context : Context}
    (hasUserId : context.HasUserId) :
    decrypt fernet ciphertext context =
      if serializeContext call.context = serializeContext context then .ok call.plaintext
      else .error (.kmsDecryptError "EncryptionContext mismatch") := by
  rw [encrypt_eq called] at encrypted
  obtain ⟨length, packed, rfl⟩ := Python.map_eq_ok_iff.mp encrypted
  obtain ⟨isFour, unpacked⟩ := unpackLength_packLength packed
  have token : (length ++ serializeContext call.context ++
      fernet.encrypt call.entropy call.blob).drop (4 + (serializeContext call.context).length) =
      fernet.encrypt call.entropy call.blob := by
    rw [← isFour, ← List.length_append, List.drop_left]
  unfold decrypt
  rw [if_neg (not_not_intro hasUserId), List.append_assoc, ← isFour, List.take_left, unpacked,
    List.drop_left]
  dsimp only
  rw [List.take_left, isFour, ← List.append_assoc, token]
  by_cases same : serializeContext call.context = serializeContext context
  · have accepted : fernet.decrypt (fernet.encrypt call.entropy call.blob) = some call.blob :=
      (authenticated _ _).mpr ⟨call, isCall, called, rfl, rfl⟩
    rw [if_neg (not_not_intro same), if_pos same, accepted]
    dsimp only
    unfold EncryptCall.blob
    rw [findIdx?_zero (encode_serialized call.context).2.2]
    dsimp only
    rw [List.take_left, if_neg (not_not_intro rfl), drop_zero]
  · rw [if_pos same, if_neg same]

/-- What is encrypted under a context is decrypted under it and refused under every other, and what
is decrypted under a context was encrypted under it. -/
theorem context_bound (fernet : Fernet Entropy) (calls : List (EncryptCall Entropy))
    (authenticated : Authenticated fernet calls)
    (unsplit : ∀ call ∈ calls, call.context.Unsplit) :
    (∀ call ∈ calls, call.context.HasUserId →
      (serializeContext call.context).length < 0x100000000 →
      ∃ ciphertext, encrypt fernet call = .ok ciphertext ∧
        ∀ context : Context, context.HasUserId → context.Unsplit →
          (context.Same call.context → decrypt fernet ciphertext context = .ok call.plaintext) ∧
          (¬ context.Same call.context →
            ∃ message, decrypt fernet ciphertext context = .error (.kmsDecryptError message))) ∧
    ∀ (ciphertext plaintext : List UInt8) (context : Context), context.Unsplit →
      decrypt fernet ciphertext context = .ok plaintext →
      ∃ call ∈ calls, call.plaintext = plaintext ∧ call.context.Same context := by
  constructor
  · intro call isCall called short
    have packed : ∃ length, packLength (serializeContext call.context).length = .ok length :=
      ⟨_, if_pos short⟩
    obtain ⟨length, packed⟩ := packed
    have encrypted : encrypt fernet call = _ := encrypt_eq called
    rw [packed] at encrypted
    refine ⟨_, encrypted, fun context hasUserId isUnsplit => ?_⟩
    rw [decrypt_encrypt authenticated isCall called encrypted hasUserId]
    have sameIff := serializeContext_inj (unsplit call isCall) isUnsplit
    constructor
    · intro same
      rw [if_pos (sameIff.mpr same.symm)]
    · intro different
      rw [if_neg fun same => different (sameIff.mp same).symm]
      exact ⟨_, rfl⟩
  · intro ciphertext plaintext context isUnsplit decrypted
    obtain ⟨call, isCall, isPlaintext, same⟩ := decrypt_eq_ok authenticated decrypted
    exact ⟨call, isCall, isPlaintext,
      (serializeContext_inj (unsplit call isCall) isUnsplit).mp same⟩

end Records

/-! ### A key that keeps a list of its tokens -/

section Recording

/-- A token is the version byte and the blob, and a token is accepted that a call made. -/
def recordingFernet (calls : List (EncryptCall Unit)) : Fernet Unit where
  encrypt _ blob := 0x80 :: blob
  decrypt token :=
    (calls.find? fun call => call.context.HasUserId ∧ 0x80 :: call.blob = token).map
      EncryptCall.blob

theorem authenticated_recordingFernet (calls : List (EncryptCall Unit)) :
    Authenticated (recordingFernet calls) calls := by
  intro token blob
  constructor
  · intro accepted
    obtain ⟨call, found, isBlob⟩ := Option.map_eq_some_iff.mp accepted
    have holds := List.find?_some found
    rw [decide_eq_true_eq] at holds
    obtain ⟨hasUserId, isToken⟩ := holds
    exact ⟨call, List.mem_of_find?_eq_some found, hasUserId, isBlob, isBlob ▸ isToken⟩
  · rintro ⟨call, isCall, hasUserId, rfl, rfl⟩
    cases found : calls.find? fun other =>
        other.context.HasUserId ∧ 0x80 :: other.blob = 0x80 :: call.blob with
    | none =>
      have notFound := List.find?_eq_none.mp found call isCall
      exact absurd (decide_eq_true ⟨hasUserId, rfl⟩) notFound
    | some other =>
      have holds := List.find?_some found
      rw [decide_eq_true_eq] at holds
      show Option.map EncryptCall.blob (calls.find? fun other =>
        other.context.HasUserId ∧ 0x80 :: other.blob = 0x80 :: call.blob) = _
      rw [found]
      exact congrArg some (List.cons.inj holds.2).2

/-- The context of a user. -/
def userContext (userId : Text) : Context where
  entries := [(text "user_id", userId)]
  distinct := List.nodup_singleton _

def encryptTea (userId : Text) : EncryptCall Unit where
  entropy := ()
  plaintext := [0x74, 0x65, 0x61]
  context := userContext userId

theorem hasUserId_userContext (userId : Text) : (userContext userId).HasUserId :=
  List.mem_cons_self

theorem unsplit_userContext (userId : String) : (userContext (text userId)).Unsplit :=
  List.forall_mem_singleton.mpr ⟨noSplitPair_text _, noSplitPair_text _⟩

/-- Two calls under different users. -/
def teaCalls : List (EncryptCall Unit) := [encryptTea (text "alice"), encryptTea (text "bob")]

theorem teaCalls_bound :
    (∀ call ∈ teaCalls, call.context.HasUserId →
      (serializeContext call.context).length < 0x100000000 →
      ∃ ciphertext, encrypt (recordingFernet teaCalls) call = .ok ciphertext ∧
        ∀ context : Context, context.HasUserId → context.Unsplit →
          (context.Same call.context →
            decrypt (recordingFernet teaCalls) ciphertext context = .ok call.plaintext) ∧
          (¬ context.Same call.context → ∃ message,
            decrypt (recordingFernet teaCalls) ciphertext context =
              .error (.kmsDecryptError message))) ∧
    ∀ (ciphertext plaintext : List UInt8) (context : Context), context.Unsplit →
      decrypt (recordingFernet teaCalls) ciphertext context = .ok plaintext →
      ∃ call ∈ teaCalls, call.plaintext = plaintext ∧ call.context.Same context :=
  context_bound (recordingFernet teaCalls) teaCalls (authenticated_recordingFernet teaCalls)
    (List.forall_mem_cons.mpr ⟨unsplit_userContext "alice",
      List.forall_mem_singleton.mpr (unsplit_userContext "bob")⟩)

/-- The surrogates of a character, and the character. -/
def halves : Text := [⟨0xd83c, by decide⟩, ⟨0xdf75, by decide⟩]

def whole : Text := [⟨0x1f375, by decide⟩]

theorem serializeContext_halves :
    serializeContext (userContext halves) = serializeContext (userContext whole) := rfl

theorem length_le_quote (value : Text) : value.length ≤ (quote value).length := by
  have nonempty : ∀ char : CodePoint, 1 ≤ (escapeChar char).length := by
    intro char
    unfold escapeChar
    split
    · exact Nat.le_add_left _ _
    split
    · exact Nat.le_refl _
    split
    · exact Nat.le_add_left _ _
    · rw [List.length_append]
      exact Nat.le_add_left _ _
  have escaped : value.length ≤ (value.flatMap escapeChar).length := by
    induction value with
    | nil => exact Nat.le_refl _
    | cons char value inductionHypothesis =>
      have one := nonempty char
      rw [List.flatMap_cons, List.length_append, List.length_cons]
      omega
  unfold quote
  rw [List.length_append, List.length_cons]
  omega

/-- Four bytes do not hold the length of a context with a very long string. -/
theorem encrypt_long {userId : Text} (long : 0x100000000 ≤ userId.length) (fernet : Fernet Unit) :
    encrypt fernet (encryptTea userId) = .error .structError := by
  have written : (userContext userId).json.sortKeys.dumps noFloats =
      openBrace :: (quote (text "user_id") ++ colon :: quote userId ++ [closeBrace]) := rfl
  have atLeast := length_le_quote userId
  have length : 0x100000000 ≤ (serializeContext (userContext userId)).length := by
    rw [(encode_serialized _).2.1, written]
    simp only [List.length_append, List.length_cons]
    omega
  rw [encrypt_eq (hasUserId_userContext userId)]
  have refused : packLength (serializeContext (encryptTea userId).context).length =
      .error .structError := if_neg (Nat.not_lt.mpr length)
  rw [refused]
  rfl

/-- A ciphertext under the surrogates is decrypted under the character; and there is none under a
context that is too long. -/
theorem another_context_decrypts :
    (∃ ciphertext, encrypt (recordingFernet [encryptTea halves]) (encryptTea halves) =
        .ok ciphertext ∧
      ¬ (userContext whole).Same (encryptTea halves).context ∧
      decrypt (recordingFernet [encryptTea halves]) ciphertext (userContext whole) =
        .ok (encryptTea halves).plaintext) ∧
      ∃ userId, ∀ fernet, encrypt fernet (encryptTea userId) = .error .structError := by
  refine ⟨?_, List.replicate 0x100000000 (codePoint 'a'), encrypt_long ?_⟩
  · obtain ⟨ciphertext, encrypted⟩ : ∃ ciphertext,
        encrypt (recordingFernet [encryptTea halves]) (encryptTea halves) = .ok ciphertext :=
      ⟨_, rfl⟩
    refine ⟨ciphertext, encrypted, by decide, ?_⟩
    rw [decrypt_encrypt (authenticated_recordingFernet _) (List.mem_singleton_self _)
      (hasUserId_userContext _) encrypted (hasUserId_userContext _)]
    exact if_pos serializeContext_halves
  · rw [List.length_replicate]

end Recording

end LiteHorse.Storage.KmsLocal
