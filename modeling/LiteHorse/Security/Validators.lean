/-
This file models the validator of texts that land in a system prompt. A text is refused if it
has an invisible character or a part that matches one of three patterns, whatever the case of
its letters.

What a match needs is inside the text, so a part of an accepted text is accepted
(`checkUntrusted_of_inside`).
-/

import LiteHorse.Library.Patterns
import LiteHorse.Python

namespace LiteHorse.Security

open Patterns Python

/-- `_INVISIBLE_RE` -/
def isInvisible (char : Char) : Bool :=
  let code := char.toNat
  (0x200b ≤ code && code ≤ 0x200f) || (0x202a ≤ code && code ≤ 0x202e) ||
    (0x2060 ≤ code && code ≤ 0x206f)

/-- The ASCII letter that `re.I` takes a character for. Besides the other case these are the
dotted and the dotless i, the long s and the Kelvin sign. -/
def foldCase (char : Char) : Char :=
  if char.toNat = 0x130 || char.toNat = 0x131 then 'i'
  else if char.toNat = 0x17f then 's'
  else if char.toNat = 0x212a then 'k'
  else char.toLower

/-- A text of ASCII characters, in any case. -/
def literal (text : String) : Pattern Char :=
  Pattern.sequence (text.toList.map fun char => .one fun other => foldCase other = foldCase char)

/-- `\s*` -/
def anySpaces : Pattern Char := .many isSpace

/-- `\s+` -/
def someSpaces : Pattern Char := .seq (.one isSpace) anySpaces

structure InjectionPattern where
  /-- The text of the expression. -/
  pattern : String
  compiled : Pattern Char

/-- `_INJECTION_PATTERNS` -/
def injectionPatterns : List InjectionPattern :=
  [{ pattern := "ignore\\s+(all\\s+)?previous\\s+instructions"
     compiled := .sequence [literal "ignore", someSpaces,
       .optional (.seq (literal "all") someSpaces), literal "previous", someSpaces,
       literal "instructions"] },
   { pattern := "system\\s*:\\s*you\\s+are"
     compiled := .sequence [literal "system", anySpaces, literal ":", anySpaces, literal "you",
       someSpaces, literal "are"] },
   { pattern := "<\\s*\\|im_start\\s*\\|>"
     compiled := .sequence [literal "<", anySpaces, literal "|im_start", anySpaces,
       literal "|>"] }]

/-- The error is the message of `UnsafeContent`. -/
def checkUntrusted (content : String) : Except String Unit :=
  if content.toList.any isInvisible then
    .error "content contains invisible Unicode characters"
  else
    match injectionPatterns.find? fun pat => pat.compiled.found content.toList with
    | some pat => .error ("content matches injection pattern: " ++ pat.pattern)
    | none => .ok ()

theorem checkUntrusted_ok_iff {content : String} :
    checkUntrusted content = .ok () ↔
      (∀ char ∈ content.toList, ¬ isInvisible char) ∧
        ∀ pat ∈ injectionPatterns, ¬ pat.compiled.found content.toList := by
  unfold checkUntrusted
  split
  next invisible =>
    obtain ⟨char, member, isInvisible⟩ := List.any_eq_true.mp invisible
    refine ⟨fun refused => ?_, fun accepted => absurd isInvisible (accepted.1 char member)⟩
    cases refused
  next visible =>
    have visible : ∀ char ∈ content.toList, ¬ isInvisible char := by
      intro char member isInvisible
      exact visible (List.any_eq_true.mpr ⟨char, member, isInvisible⟩)
    rw [and_iff_right visible]
    split
    next pat found =>
      refine ⟨fun refused => ?_, fun accepted => ?_⟩
      · cases refused
      · exact absurd (List.find?_some found) (accepted pat (List.mem_of_find?_eq_some found))
    next notFound => exact ⟨fun _ => List.find?_eq_none.mp notFound, fun _ => rfl⟩

theorem checkUntrusted_of_inside {content part : String}
    (accepted : checkUntrusted content = .ok ()) (inside : part.toList <:+: content.toList) :
    checkUntrusted part = .ok () := by
  obtain ⟨visible, clean⟩ := checkUntrusted_ok_iff.mp accepted
  refine checkUntrusted_ok_iff.mpr ⟨fun char member => visible char (inside.subset member), ?_⟩
  exact fun pat member found => clean pat member (found_of_inside inside found)

end LiteHorse.Security
