/-
This file is about the chunks of a tokenizer that splits the bytes of a text. A token may end
inside of a character, and a window of tokens is read with a replacement for what it cuts, so a
chunk can have characters the text does not have.

A short word is whole in a chunk however the windows cut (`whole_word`). The chunks are parts of
the text exactly if no window cuts a character, or the text happens to have the replacements too
(`chunksOfText_iff`).
-/

import LiteHorse.Library.Utf8Slices
import LiteHorse.Providers.Chunker

namespace LiteHorse.Providers

open Delimited JsonTexts Python SlidingWindows Utf8

/-! ### Tokenizers of bytes -/

/-- A tokenizer whose tokens are consecutive pieces of the UTF-8 bytes of a text. -/
structure ByteTokenizer where
  encode : String → List Nat
  bytes : Nat → List UInt8
  nonempty : ∀ document, ∀ token ∈ encode document, bytes token ≠ []
  splits : ∀ document, (encode document).flatMap bytes = textBytes (text document)

def charOf (char : CodePoint) : Char := Char.ofNat char.val

namespace ByteTokenizer

variable (tokenizer : ByteTokenizer) (document : String)

/-- `decode` reads the bytes of the tokens with `errors="replace"`. -/
def toTokenizer : Tokenizer where
  encode document := some (tokenizer.encode document)
  decode tokens := String.ofList ((Utf8.decode (tokens.flatMap tokenizer.bytes)).map charOf)

/-- The number of bytes before a token. -/
def offset (position : Nat) : Nat :=
  (((tokenizer.encode document).take position).flatMap tokenizer.bytes).length

/-- The windows of `chunk_text`. -/
def spans : List Span :=
  if strip document = "" then []
  else spansFrom chunkTokens chunkOverlapTokens (tokenizer.encode document).length 0

/-- The characters of a window as they are read. -/
def shown (span : Span) : List Char :=
  (shownSlice (text document) (tokenizer.offset document span.start)
    (tokenizer.offset document span.stop)).map charOf

/-- No character is cut at either end of the window. -/
def CutsNone (span : Span) : Prop :=
  OnBoundary (text document) (tokenizer.offset document span.start) ∧
    OnBoundary (text document) (tokenizer.offset document span.stop)

/-- The bytes from a start to a stop are those of so many tokens, or of fewer. -/
def WithinTokens (count start stop : Nat) : Prop :=
  ∃ first last, last ≤ first + count ∧ last ≤ (tokenizer.encode document).length ∧
    tokenizer.offset document first ≤ start ∧ stop ≤ tokenizer.offset document last

end ByteTokenizer

/-- A longest run of characters that are no blanks. -/
structure IsWord (front word back : List Char) : Prop where
  nonempty : word ≠ []
  solid : ∀ char ∈ word, ¬ isSpace char = true
  starts : ∀ char, front.getLast? = some char → isSpace char = true
  stops : ∀ char, back.head? = some char → isSpace char = true

/-- The number of the UTF-8 bytes of characters. -/
def byteCount (chars : List Char) : Nat := (textBytes (chars.map codePoint)).length

/-- What is expected of the chunks of a text. -/
structure ChunksOfText (tokenizer : ByteTokenizer) (document : String) : Prop where
  parts : ∀ chunk ∈ chunkText tokenizer.toTokenizer document, chunk.toList <:+: document.toList
  words : ∀ front word back, document.toList = front ++ (word ++ back) → IsWord front word back →
    tokenizer.WithinTokens document 32 (byteCount front) (byteCount front + byteCount word) →
    ∃ chunk ∈ chunkText tokenizer.toTokenizer document, word <:+: chunk.toList

/-! ### Windows of tokens and slices of bytes -/

section Windows

variable {tokenizer : ByteTokenizer} {document : String} {span : Span}

theorem charOf_codePoint (char : Char) : charOf (codePoint char) = char := Char.ofNat_toNat char

theorem map_charOf_codePoint (chars : List Char) : (chars.map codePoint).map charOf = chars := by
  rw [List.map_map]
  exact (List.map_congr_left fun char _ => charOf_codePoint char).trans (List.map_id _)

theorem map_charOf_text (document : String) : (text document).map charOf = document.toList :=
  map_charOf_codePoint document.toList

theorem offset_stop (span : Span) (forward : span.start ≤ span.stop) :
    tokenizer.offset document span.stop = tokenizer.offset document span.start +
      ((slice (tokenizer.encode document) span).flatMap tokenizer.bytes).length := by
  unfold ByteTokenizer.offset
  rw [take_stop _ forward, List.flatMap_append, List.length_append]

/-- A window has bytes, since no token is empty. -/
theorem offset_lt (forward : span.start < span.stop)
    (inside : span.stop ≤ (tokenizer.encode document).length) :
    tokenizer.offset document span.start < tokenizer.offset document span.stop := by
  have notEmpty : slice (tokenizer.encode document) span ≠ [] := by
    refine List.ne_nil_of_length_pos ?_
    unfold slice
    rw [List.length_take, List.length_drop]
    omega
  obtain ⟨token, rest, isCons⟩ := List.exists_cons_of_ne_nil notEmpty
  have isToken : token ∈ tokenizer.encode document :=
    (slice_isInfix _ span).subset (isCons ▸ List.mem_cons_self)
  have positive := List.length_pos_of_ne_nil (tokenizer.nonempty document token isToken)
  rw [offset_stop span forward.le, isCons, List.flatMap_cons, List.length_append]
  omega

theorem offset_mono (span : Span) (forward : span.start ≤ span.stop) :
    tokenizer.offset document span.start ≤ tokenizer.offset document span.stop := by
  rw [offset_stop span forward]
  exact Nat.le_add_right _ _

theorem flatMap_slice (forward : span.start ≤ span.stop) :
    (slice (tokenizer.encode document) span).flatMap tokenizer.bytes =
      ((textBytes (text document)).drop (tokenizer.offset document span.start)).take
        (tokenizer.offset document span.stop - tokenizer.offset document span.start) := by
  have whole : textBytes (text document) =
      ((tokenizer.encode document).take span.start).flatMap tokenizer.bytes ++
        ((slice (tokenizer.encode document) span).flatMap tokenizer.bytes ++
          ((tokenizer.encode document).drop span.stop).flatMap tokenizer.bytes) := by
    rw [← List.flatMap_append, ← List.flatMap_append, take_append_slice _ forward]
    exact (tokenizer.splits document).symm
  rw [whole, offset_stop span forward, Nat.add_sub_cancel_left]
  unfold ByteTokenizer.offset
  rw [List.drop_left, List.take_left]

theorem decode_window (forward : span.start ≤ span.stop) :
    tokenizer.toTokenizer.decode (slice (tokenizer.encode document) span) =
      String.ofList (tokenizer.shown document span) := by
  show String.ofList ((Utf8.decode _).map charOf) = _
  rw [flatMap_slice forward, decode_slice (encodable_text document)]
  rfl

theorem mem_spans (member : span ∈ tokenizer.spans document) :
    span.start < span.stop ∧ span.stop ≤ (tokenizer.encode document).length := by
  unfold ByteTokenizer.spans at member
  split at member
  · cases member
  · have bounds := bounds_of_mem (by decide) member
    exact ⟨bounds.2.1, bounds.2.2.1⟩

theorem chunkText_eq (tokenizer : ByteTokenizer) (document : String) :
    chunkText tokenizer.toTokenizer document = ((tokenizer.spans document).map fun span =>
      strip (String.ofList (tokenizer.shown document span))).filter fun chunk => chunk ≠ "" := by
  unfold chunkText ByteTokenizer.spans
  split
  · rfl
  next notBlank =>
    show ((windowsFrom _ _ _ _).map _).filter _ = _
    rw [windowsFrom_eq, List.map_map]
    refine congrArg _ (List.map_congr_left fun span member => ?_)
    have bounds := bounds_of_mem (by decide) member
    exact congrArg strip (decode_window bounds.2.1.le)

end Windows

/-! ### Words -/

section Words

variable {tokenizer : ByteTokenizer} {document : String}

theorem text_append (front word back : List Char)
    (whole : document.toList = front ++ (word ++ back)) :
    text document = front.map codePoint ++ (word.map codePoint ++ back.map codePoint) := by
  unfold text
  rw [whole, List.map_append, List.map_append]

theorem strip_ne_empty {char : Char} (member : char ∈ document.toList)
    (solid : ¬ isSpace char = true) : strip document ≠ "" := by
  intro blank
  have allBlank : trim isSpace document.toList = [] := by
    rw [← String.toList_ofList (l := trim isSpace document.toList)]
    exact congrArg String.toList blank
  exact solid (trim_eq_nil_iff.mp allBlank char member)

theorem byteCount_pos {word : List Char} (nonempty : word ≠ []) : 0 < byteCount word := by
  obtain ⟨char, rest, rfl⟩ := List.exists_cons_of_ne_nil nonempty
  have isSome : (encodeChar (codePoint char)).isSome :=
    encodable_text (String.ofList [char]) _ (by simp [text])
  have positive := length_charBytes_pos isSome
  unfold byteCount
  rw [List.map_cons, textBytes_cons, List.length_append]
  omega

theorem toList_strip_ofList (chars : List Char) :
    (strip (String.ofList chars)).toList = trim isSpace chars := by
  unfold strip
  rw [String.toList_ofList, String.toList_ofList]
  rfl

/-- The tokens of a short word lie in a window, and the window is read with the whole word. -/
theorem whole_word {front word back : List Char}
    (whole : document.toList = front ++ (word ++ back)) (isWord : IsWord front word back)
    (short : tokenizer.WithinTokens document 32 (byteCount front)
      (byteCount front + byteCount word)) :
    ∃ chunk ∈ chunkText tokenizer.toTokenizer document, word <:+: chunk.toList := by
  obtain ⟨first, last, near, inside, starts, stops⟩ := short
  obtain ⟨char, isChar⟩ := List.exists_mem_of_ne_nil word isWord.nonempty
  have inDocument : char ∈ document.toList := by
    rw [whole]
    exact List.mem_append_right _ (List.mem_append_left _ isChar)
  have notBlank := strip_ne_empty inDocument (isWord.solid char isChar)
  have positive := byteCount_pos isWord.nonempty
  have someToken : 0 < last := by
    refine Nat.pos_of_ne_zero fun isZero => ?_
    have noBytes : tokenizer.offset document 0 = 0 := rfl
    rw [isZero, noBytes] at stops
    omega
  have isCovered := covered (by decide : 32 < 256) (someToken.trans_le inside) (Nat.zero_le first)
    inside near
  obtain ⟨span, member, spanStarts, spanStops⟩ := isCovered
  have isSpan : span ∈ tokenizer.spans document := by
    unfold ByteTokenizer.spans
    rw [if_neg notBlank]
    exact member
  have inWindow : word.map codePoint <:+: shownSlice (text document)
      (tokenizer.offset document span.start) (tokenizer.offset document span.stop) := by
    have encodable := encodable_text document
    rw [text_append front word back whole] at encodable ⊢
    exact infix_shownSlice encodable ((offset_mono ⟨span.start, first⟩ spanStarts).trans starts)
      (stops.trans (offset_mono ⟨last, span.stop⟩ spanStops))
  have inShown : word <:+: tokenizer.shown document span := by
    rw [← map_charOf_codePoint word]
    exact inWindow.map charOf
  have inChunk : word <:+: trim isSpace (tokenizer.shown document span) :=
    infix_trim inShown (trim_of_solid isWord.solid)
  refine ⟨strip (String.ofList (tokenizer.shown document span)), ?_, ?_⟩
  · rw [chunkText_eq]
    refine List.mem_filter.mpr ⟨List.mem_map_of_mem isSpan, decide_eq_true fun isEmpty => ?_⟩
    rw [← toList_strip_ofList, isEmpty] at inChunk
    exact isWord.nonempty (List.infix_nil.mp inChunk)
  · rw [toList_strip_ofList]
    exact inChunk

end Words

/-! ### Parts of the text -/

section Parts

variable {tokenizer : ByteTokenizer} {document : String} {span : Span}

theorem shown_isInfix (member : span ∈ tokenizer.spans document)
    (cutsNone : tokenizer.CutsNone document span) :
    tokenizer.shown document span <:+: document.toList := by
  have forward : tokenizer.offset document span.start ≤ tokenizer.offset document span.stop :=
    offset_mono span (mem_spans member).1.le
  rw [← map_charOf_text document]
  exact (shownSlice_isInfix cutsNone.1 cutsNone.2 forward).map charOf

/-- A window that cuts a character has a replacement character in its chunk. -/
theorem replacement_mem_trim (member : span ∈ tokenizer.spans document)
    (cuts : ¬ tokenizer.CutsNone document span) :
    '\uFFFD' ∈ trim isSpace (tokenizer.shown document span) := by
  have forward : tokenizer.offset document span.start < tokenizer.offset document span.stop :=
    offset_lt (mem_spans member).1 (mem_spans member).2
  have isReplacement : charOf replacement = '\uFFFD' := rfl
  refine mem_trim ?_ (by decide)
  rw [← isReplacement]
  exact List.mem_map_of_mem (replacement_mem_shownSlice forward cuts)

theorem parts_iff : (∀ chunk ∈ chunkText tokenizer.toTokenizer document,
      chunk.toList <:+: document.toList) ↔
    ∀ span ∈ tokenizer.spans document,
      trim isSpace (tokenizer.shown document span) <:+: document.toList := by
  rw [chunkText_eq]
  constructor
  · intro parts span member
    by_cases isEmpty : strip (String.ofList (tokenizer.shown document span)) = ""
    · rw [← toList_strip_ofList, isEmpty]
      exact List.nil_infix
    · have isChunk := parts _ (List.mem_filter.mpr
        ⟨List.mem_map_of_mem member, decide_eq_true isEmpty⟩)
      rwa [toList_strip_ofList] at isChunk
  · intro stands chunk isChunk
    obtain ⟨span, member, rfl⟩ := List.mem_map.mp (List.mem_filter.mp isChunk).1
    rw [toList_strip_ofList]
    exact stands span member

/-- Where a window cuts a character, the chunk is a part of the text only if the text has a
replacement character too. -/
theorem stands_iff (member : span ∈ tokenizer.spans document) :
    trim isSpace (tokenizer.shown document span) <:+: document.toList ↔
      tokenizer.CutsNone document span ∨ '\uFFFD' ∈ document.toList ∧
        trim isSpace (tokenizer.shown document span) <:+: document.toList := by
  constructor
  · intro stands
    by_cases cutsNone : tokenizer.CutsNone document span
    · exact Or.inl cutsNone
    · exact Or.inr ⟨stands.subset (replacement_mem_trim member cutsNone), stands⟩
  · rintro (cutsNone | ⟨_, stands⟩)
    · exact trim_inside.trans (shown_isInfix member cutsNone)
    · exact stands

/-- The chunks are parts of the text, with every short word whole in one, exactly if no window cuts
a character, or the text has what such a window is read as. -/
theorem chunksOfText_iff (tokenizer : ByteTokenizer) (document : String) :
    ChunksOfText tokenizer document ↔ ∀ span ∈ tokenizer.spans document,
      tokenizer.CutsNone document span ∨ '\uFFFD' ∈ document.toList ∧
        trim isSpace (tokenizer.shown document span) <:+: document.toList := by
  constructor
  · intro holds span member
    exact (stands_iff member).mp (parts_iff.mp holds.parts span member)
  · intro stands
    refine ⟨parts_iff.mpr fun span member => (stands_iff member).mpr (stands span member), ?_⟩
    exact fun front word back whole isWord short => whole_word whole isWord short

end Parts

/-! ### A cut character -/

/-- The tokenizer with a token for each byte. -/
def singleBytes : ByteTokenizer where
  encode document := (textBytes (text document)).map UInt8.toNat
  bytes token := [UInt8.ofNat token]
  nonempty _ _ _ := List.cons_ne_nil _ _
  splits document := by
    rw [List.flatMap_map]
    refine (List.flatMap_congr fun byte _ => ?_).trans (List.flatMap_singleton' _)
    rw [UInt8.ofNat_toNat]

/-- One byte, then two hundred characters of two bytes. -/
def accents : String := String.ofList ('a' :: List.replicate 200 'é')

theorem toList_accents : accents.toList = 'a' :: List.replicate 200 'é' := String.toList_ofList

theorem text_accents : text accents = codePoint 'a' :: List.replicate 200 (codePoint 'é') := by
  unfold text
  rw [toList_accents, List.map_cons, List.map_replicate]

theorem length_encode_accents : (singleBytes.encode accents).length = 401 := by
  unfold singleBytes
  rw [List.length_map, text_accents]
  decide +kernel

theorem offset_singleBytes (document : String) {position : Nat}
    (inside : position ≤ (singleBytes.encode document).length) :
    singleBytes.offset document position = position := by
  unfold ByteTokenizer.offset
  show (((singleBytes.encode document).take position).flatMap fun token =>
    [UInt8.ofNat token]).length = position
  rw [← List.map_eq_flatMap, List.length_map, List.length_take_of_le inside]

/-- The first window ends in the middle of a character. -/
theorem cuts_accents : ¬ singleBytes.CutsNone accents ⟨0, 256⟩ := by
  rintro ⟨_, stopWhole⟩
  rw [offset_singleBytes accents (by rw [length_encode_accents]; decide), text_accents] at stopWhole
  revert stopWhole
  unfold OnBoundary
  decide +kernel

theorem not_chunksOfText_accents : ¬ ChunksOfText singleBytes accents := by
  intro holds
  have letter : 'a' ∈ accents.toList := toList_accents ▸ List.mem_cons_self
  have notBlank : strip accents ≠ "" := strip_ne_empty letter (by decide)
  have isFirst : (⟨0, 256⟩ : Span) ∈ singleBytes.spans accents := by
    unfold ByteTokenizer.spans
    rw [if_neg notBlank, length_encode_accents, spansFrom]
    exact List.mem_cons_self
  have noReplacement : '\uFFFD' ∉ accents.toList := by
    rw [toList_accents, List.mem_cons, List.mem_replicate]
    decide
  have stands := parts_iff.mp holds.parts _ isFirst
  exact noReplacement (((stands_iff isFirst).mp stands).resolve_left cuts_accents).1

end LiteHorse.Providers
