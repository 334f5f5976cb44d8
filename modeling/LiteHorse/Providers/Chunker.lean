/-
This file models the chunker of the recall index: a window that slides over the tokens of a text,
or over its characters where there is no tokenizer.

A window of characters is cut out of the text and stripped. The windows reach from one end of the
text to the other and overlap, so a short part of the text is whole in a chunk (`windows_cover`);
a blank text is left out before any window is cut.
-/

import LiteHorse.Library.Delimited
import LiteHorse.Library.SlidingWindow
import LiteHorse.Strings

namespace LiteHorse.Providers

open Delimited Python SlidingWindows

def chunkTokens : Nat := 256

def chunkOverlapTokens : Nat := 32

def charsPerTokenFallback : Nat := 4

/-- The encoding `cl100k_base`. `encode` gives nothing if there is no tokenizer or it refuses the
text. -/
structure Tokenizer where
  encode : String → Option (List Nat)
  decode : List Nat → String

/-- The pieces the loop of the chunker cuts out, from a start on. -/
def windowsFrom {Item : Type} (window overlap : Nat) (items : List Item) (start : Nat) :
    List (List Item) :=
  if start < items.length then
    let stop := min (start + window) items.length
    let piece := (items.drop start).take (stop - start)
    if stop = items.length then [piece]
    else piece :: windowsFrom window overlap items (max (stop - overlap) (start + 1))
  else []
termination_by items.length - start

/-- `_chunk_with_tiktoken` -/
def chunkWithTiktoken (tokenizer : Tokenizer) (text : String) : Option (List String) :=
  (tokenizer.encode text).map fun tokens =>
    ((windowsFrom chunkTokens chunkOverlapTokens tokens 0).map fun piece =>
      strip (tokenizer.decode piece)).filter fun chunk => chunk ≠ ""

/-- `_chunk_with_chars` -/
def chunkWithChars (text : String) : List String :=
  if strip text = "" then []
  else
    let window := chunkTokens * charsPerTokenFallback
    let overlap := chunkOverlapTokens * charsPerTokenFallback
    ((windowsFrom window overlap text.toList 0).map fun piece =>
      strip (String.ofList piece)).filter fun chunk => chunk ≠ ""

/-- `chunk_text` -/
def chunkText (tokenizer : Tokenizer) (text : String) : List String :=
  if strip text = "" then []
  else
    match chunkWithTiktoken tokenizer text with
    | some chunks => chunks
    | none => chunkWithChars text

/-- A text that fits the window is one piece. -/
theorem windowsFrom_short {Item : Type} {window overlap : Nat} {items : List Item}
    (nonempty : items ≠ []) (fits : items.length ≤ window) :
    windowsFrom window overlap items 0 = [items] := by
  have whole : min (0 + window) items.length = items.length := by
    rw [Nat.zero_add]
    exact min_eq_right fits
  rw [windowsFrom, if_pos (List.length_pos_of_ne_nil nonempty)]
  dsimp only
  rw [whole, if_pos rfl, Nat.sub_zero, List.drop_zero, List.take_length]

/-- Without a tokenizer a short text without blanks at its ends is its only chunk. -/
theorem chunkText_short {tokenizer : Tokenizer} {text : String}
    (noTokens : tokenizer.encode text = none) (trimmed : strip text = text) (nonempty : text ≠ "")
    (fits : text.toList.length ≤ chunkTokens * charsPerTokenFallback) :
    chunkText tokenizer text = [text] := by
  have notBlank : strip text ≠ "" := trimmed.symm ▸ nonempty
  have someText : text.toList ≠ [] := fun isEmpty =>
    nonempty (String.toList_injective isEmpty)
  unfold chunkText chunkWithTiktoken
  rw [if_neg notBlank, noTokens]
  show chunkWithChars text = [text]
  unfold chunkWithChars
  rw [if_neg notBlank]
  dsimp only
  rw [windowsFrom_short someText fits, List.map_singleton, String.ofList_toList, trimmed,
    List.filter_singleton, decide_eq_true nonempty]
  rfl

/-- The first piece is the start of the text, as far as the window goes. -/
theorem take_mem_windowsFrom {Item : Type} {window overlap : Nat} {items : List Item}
    (nonempty : items ≠ []) : items.take window ∈ windowsFrom window overlap items 0 := by
  rw [windowsFrom, if_pos (List.length_pos_of_ne_nil nonempty)]
  dsimp only
  rw [Nat.zero_add, Nat.sub_zero, List.drop_zero, ← List.take_eq_take_min]
  split
  · exact List.mem_singleton_self _
  · exact List.mem_cons_self

/-- Without a tokenizer the start of a text is a chunk, unless it is blank. -/
theorem take_mem_chunkText {tokenizer : Tokenizer} {text chunk : String}
    (noTokens : tokenizer.encode text = none) (notBlank : strip text ≠ "")
    (isChunk :
      strip (String.ofList (text.toList.take (chunkTokens * charsPerTokenFallback))) = chunk)
    (nonempty : chunk ≠ "") : chunk ∈ chunkText tokenizer text := by
  have someText : text.toList ≠ [] := by
    intro noText
    have isBlank : text = "" := String.toList_injective noText
    rw [isBlank] at notBlank
    exact notBlank rfl
  unfold chunkText chunkWithTiktoken
  rw [if_neg notBlank, noTokens]
  show chunk ∈ chunkWithChars text
  unfold chunkWithChars
  rw [if_neg notBlank]
  refine List.mem_filter.mpr ⟨?_, decide_eq_true nonempty⟩
  exact List.mem_map.mpr ⟨_, take_mem_windowsFrom someText, isChunk⟩

/-! ### The positions of the windows -/

theorem windowsFrom_eq {Item : Type} (window overlap : Nat) (items : List Item) (start : Nat) :
    windowsFrom window overlap items start =
      (spansFrom window overlap items.length start).map (slice items) := by
  fun_induction windowsFrom window overlap items start with
  | case1 start inside stop piece atEnd =>
    rw [spansFrom, if_pos inside]
    dsimp only
    rw [if_pos atEnd]
    rfl
  | case2 start inside stop piece notAtEnd inductionHypothesis =>
    rw [spansFrom, if_pos inside, inductionHypothesis]
    dsimp only
    rw [if_neg notAtEnd]
    rfl
  | case3 start outside =>
    rw [spansFrom, if_neg outside]
    rfl

/-! ### The characters of a text -/

def isBlank : StrChar → Bool
  | .char value => isSpace value
  | .surrogate _ => false

/-- `value.strip()`, where the value may have surrogates. -/
def stripStr (value : Str) : Str := trim isBlank value

/-- The windows of `_chunk_with_chars`. -/
def charSpans (text : Str) : List Span :=
  if stripStr text = [] then []
  else
    spansFrom (chunkTokens * charsPerTokenFallback) (chunkOverlapTokens * charsPerTokenFallback)
      text.length 0

/-- `_chunk_with_chars`, of a text that may have surrogates -/
def chunkStrWithChars (text : Str) : List Str :=
  if stripStr text = [] then []
  else
    let window := chunkTokens * charsPerTokenFallback
    let overlap := chunkOverlapTokens * charsPerTokenFallback
    ((windowsFrom window overlap text 0).map stripStr).filter fun chunk => chunk ≠ []

theorem trim_map_char (chars : List Char) :
    trim isBlank (chars.map .char) = (trim isSpace chars).map .char := by
  unfold trim List.rdropWhile
  rw [List.dropWhile_map, ← List.map_reverse, List.dropWhile_map, List.map_reverse]
  rfl

theorem stripStr_ofString (text : String) :
    stripStr (Str.ofString text) = Str.ofString (strip text) := by
  unfold stripStr Str.ofString strip
  rw [String.toList_ofList]
  exact trim_map_char text.toList

theorem ofString_eq_nil_iff {text : String} : Str.ofString text = [] ↔ text = "" := by
  unfold Str.ofString
  rw [List.map_eq_nil_iff, String.toList_eq_nil_iff]

/-- A text without surrogates has the same chunks. -/
theorem chunkStrWithChars_ofString (text : String) :
    chunkStrWithChars (Str.ofString text) = (chunkWithChars text).map Str.ofString := by
  unfold chunkStrWithChars chunkWithChars
  simp only [stripStr_ofString, ofString_eq_nil_iff]
  split
  · rfl
  · have samePiece : ∀ span : Span, stripStr (slice (Str.ofString text) span) =
        Str.ofString (strip (String.ofList (slice text.toList span))) := by
      intro span
      rw [← stripStr_ofString]
      unfold Str.ofString
      rw [slice_map, String.toList_ofList]
    have sameLength : (Str.ofString text).length = text.toList.length := List.length_map _
    rw [windowsFrom_eq, windowsFrom_eq, sameLength, List.map_map, List.map_map, List.filter_map,
      List.filter_map, List.map_map]
    simp only [Function.comp_def, samePiece, ne_eq, ofString_eq_nil_iff]

/-! ### What the windows cover -/

/-- What is expected of the windows of a text and of its chunks. -/
structure WindowsCover (text : Str) : Prop where
  first : ∃ span, (charSpans text).head? = some span ∧ span.start = 0
  last : ∃ span, (charSpans text).getLast? = some span ∧ span.stop = text.length
  short : ∀ span ∈ charSpans text, span.start < span.stop ∧ span.stop ≤ text.length ∧
    span.stop ≤ span.start + 1024
  overlap : (charSpans text).IsChain fun span next =>
    span.start < next.start ∧ span.stop = next.start + 128 ∧ span.stop < next.stop
  whole : ∀ part, part <:+: text → part.length ≤ 128 → stripStr part = part →
    ∃ chunk ∈ chunkStrWithChars text, part <:+: chunk

section Cover

variable {text part : Str} {span : Span}

theorem chunkStrWithChars_eq (text : Str) : chunkStrWithChars text =
    ((charSpans text).map fun span => stripStr (slice text span)).filter
      fun chunk => chunk ≠ [] := by
  unfold chunkStrWithChars charSpans
  split
  · rfl
  · dsimp only
    rw [windowsFrom_eq, List.map_map]
    rfl

theorem charSpans_of_solid (notBlank : stripStr text ≠ []) :
    charSpans text = spansFrom 1024 128 text.length 0 := if_neg notBlank

theorem length_pos_of_solid (notBlank : stripStr text ≠ []) : 0 < text.length := by
  refine List.length_pos_of_ne_nil fun isEmpty => ?_
  rw [isEmpty] at notBlank
  exact notBlank rfl

/-- What stands in a window and is no more than its own strip is in the chunk of the window. -/
theorem whole_of_slice (member : span ∈ charSpans text) (nonempty : part ≠ [])
    (inside : part <:+: slice text span) (trimmed : stripStr part = part) :
    ∃ chunk ∈ chunkStrWithChars text, part <:+: chunk := by
  have inChunk : part <:+: stripStr (slice text span) := infix_trim inside trimmed
  refine ⟨_, ?_, inChunk⟩
  rw [chunkStrWithChars_eq]
  refine List.mem_filter.mpr ⟨List.mem_map_of_mem member, decide_eq_true fun isEmpty => ?_⟩
  rw [isEmpty] at inChunk
  exact nonempty (List.infix_nil.mp inChunk)

theorem whole_of_nonempty (notBlank : stripStr text ≠ []) (nonempty : part ≠ [])
    (inside : part <:+: text) (short : part.length ≤ 128) (trimmed : stripStr part = part) :
    ∃ chunk ∈ chunkStrWithChars text, part <:+: chunk := by
  obtain ⟨front, back, rfl⟩ := inside
  rw [List.append_assoc] at notBlank ⊢
  have stops : front.length + part.length ≤ (front ++ (part ++ back)).length := by
    simp only [List.length_append]
    omega
  have isCovered := covered (by decide : 128 < 1024) (length_pos_of_solid notBlank)
    (Nat.zero_le front.length) stops (by omega)
  rw [← charSpans_of_solid notBlank] at isCovered
  obtain ⟨span, member, starts, ends⟩ := isCovered
  have isInfix : ∃ before after, slice (front ++ (part ++ back)) span =
      before ++ (part ++ after) := infix_slice starts ends
  obtain ⟨before, after, isSlice⟩ := isInfix
  refine whole_of_slice member nonempty ?_ trimmed
  rw [isSlice, ← List.append_assoc]
  exact ⟨before, after, rfl⟩

/-- A character that is no blank is a short part of the text. -/
theorem exists_chunk (notBlank : stripStr text ≠ []) : ∃ chunk, chunk ∈ chunkStrWithChars text := by
  obtain ⟨char, member, solid⟩ : ∃ char ∈ text, ¬ isBlank char = true := by
    by_contra none
    push Not at none
    exact notBlank (trim_eq_nil_iff.mpr none)
  have trimmed : stripStr [char] = [char] := by
    refine trim_of_solid fun symbol isMember => ?_
    rw [List.mem_singleton.mp isMember]
    exact solid
  obtain ⟨chunk, isChunk, _⟩ := whole_of_nonempty notBlank (List.cons_ne_nil char [])
    ((List.singleton_infix_iff char text).mpr member) (Nat.le_add_left 1 127) trimmed
  exact ⟨chunk, isChunk⟩

theorem charSpans_ne_nil (notBlank : stripStr text ≠ []) : charSpans text ≠ [] := by
  rw [charSpans_of_solid notBlank]
  exact spansFrom_ne_nil (length_pos_of_solid notBlank)

theorem windowsCover_of_solid (notBlank : stripStr text ≠ []) : WindowsCover text where
  first := by
    obtain ⟨span, isFirst⟩ :=
      Option.isSome_iff_exists.mp (List.isSome_head?.mpr (charSpans_ne_nil notBlank))
    refine ⟨span, isFirst, ?_⟩
    rw [charSpans_of_solid notBlank] at isFirst
    rw [head_spansFrom isFirst]
  last := by
    obtain ⟨span, isLast⟩ :=
      Option.isSome_iff_exists.mp (List.getLast?_isSome.mpr (charSpans_ne_nil notBlank))
    refine ⟨span, isLast, ?_⟩
    rw [charSpans_of_solid notBlank] at isLast
    exact stop_of_last (by decide) isLast
  short := by
    intro span member
    rw [charSpans_of_solid notBlank] at member
    exact (bounds_of_mem (by decide) member).2
  overlap := by
    rw [charSpans_of_solid notBlank]
    exact overlaps (by decide)
  whole := by
    intro part inside short trimmed
    by_cases nonempty : part = []
    · obtain ⟨chunk, isChunk⟩ := exists_chunk notBlank
      exact ⟨chunk, isChunk, nonempty ▸ List.nil_infix⟩
    · exact whole_of_nonempty notBlank nonempty inside short trimmed

/-- A blank text has no windows; the windows of every other text cover it. There are no more
windows than characters. -/
theorem windows_cover (text : Str) :
    (charSpans text).length ≤ text.length ∧
      chunkStrWithChars text = ((charSpans text).map fun span =>
        stripStr (slice text span)).filter (fun chunk => chunk ≠ []) ∧
      (stripStr text ≠ [] → WindowsCover text) ∧
      (stripStr text = [] → charSpans text = [] ∧ chunkStrWithChars text = []) := by
  refine ⟨?_, chunkStrWithChars_eq text, windowsCover_of_solid,
    fun blank => ⟨if_pos blank, if_pos blank⟩⟩
  unfold charSpans
  split
  · exact Nat.zero_le _
  · exact length_spansFrom

/-- No window of a blank is cut, and its empty part is in no chunk. -/
theorem not_windowsCover_blank : ¬ WindowsCover (Str.ofString " ") := by
  intro covers
  obtain ⟨span, isFirst, _⟩ := covers.first
  have none : charSpans (Str.ofString " ") = [] := by decide
  rw [none] at isFirst
  cases isFirst

end Cover

end LiteHorse.Providers
