/-
This file is about the file of the statistics as `_write_fd` writes it: every item on a line of its
own, the keys sorted. What is written is read (`readFd_payload`), but for the two halves of a
character, which come back as the character.
-/

import LiteHorse.Library.JsonIndented
import LiteHorse.Skills.Stats

namespace LiteHorse.Skills.StatsFile

open JsonTexts Stats
open Pathlib (eq_of_isEmpty_toUTF8 textOf_toUTF8)
open Worker.Queue (Interpreter)

variable {Finite : Type} (interpreter : Interpreter Finite)

/-! ### The file -/

section Format

variable (format : FloatFormat Finite)

theorem laidText_newline (closing : CodePoint) (level : Nat) (after : Text)
    {items : List (Json Finite)}
    (same : ∀ item ∈ items, dumpsIndented format item level = item.dumpsLaid format newline level)
    (first : Text) :
    laidText closing (newline level) after
        (first :: items.map fun item => item.dumpsLaid format newline level) =
      first ++ (indentedItems format items level ++ (after ++ [closing])) := by
  induction items generalizing first with
  | nil => rfl
  | cons item items inductionHypothesis =>
    obtain ⟨ofItem, ofItems⟩ := List.forall_mem_cons.mp same
    rw [List.map_cons, laidText, inductionHypothesis ofItems, indentedItems, ofItem]
    simp only [List.append_assoc, List.cons_append]

theorem laidText_newline_fields (closing : CodePoint) (level : Nat) (after : Text)
    {fields : List (Text × Json Finite)}
    (same : ∀ field ∈ fields,
      dumpsIndented format field.2 level = field.2.dumpsLaid format newline level)
    (first : Text) :
    laidText closing (newline level) after
        (first :: fields.map (laidField format newline level)) =
      first ++ (indentedFields format fields level ++ (after ++ [closing])) := by
  induction fields generalizing first with
  | nil => rfl
  | cons field fields inductionHypothesis =>
    obtain ⟨key, value⟩ := field
    obtain ⟨ofField, ofFields⟩ := List.forall_mem_cons.mp same
    change dumpsIndented format value level = _ at ofField
    rw [List.map_cons, laidText, inductionHypothesis ofFields, indentedFields, ofField]
    simp only [laidField, List.append_assoc, List.cons_append]

/-- An indent of two lays every item on a line of its own. -/
theorem dumpsIndented_eq (value : Json Finite) (level : Nat) :
    dumpsIndented format value level = value.dumpsLaid format newline level := by
  induction value using Json.induction generalizing level with
  | null => simp only [dumpsIndented, Json.dumpsLaid]
  | bool value => simp only [dumpsIndented, Json.dumpsLaid]
  | int value => simp only [dumpsIndented, Json.dumpsLaid]
  | float value => simp only [dumpsIndented, Json.dumpsLaid]
  | str value => simp only [dumpsIndented, Json.dumpsLaid]
  | array items inductionHypothesis =>
    rw [Json.dumpsLaid, laidItems_eq]
    cases items with
    | nil => simp only [dumpsIndented, List.map_nil, bracketText]
    | cons item items =>
      obtain ⟨ofItem, ofItems⟩ := List.forall_mem_cons.mp inductionHypothesis
      rw [List.map_cons, bracketText, laidText_newline format closeBracket (level + 1)
        (newline level) (fun other member => ofItems other member (level + 1)), dumpsIndented,
        ofItem]
      simp only [List.append_assoc, List.cons_append]
  | object fields inductionHypothesis =>
    rw [Json.dumpsLaid, laidFields_eq]
    cases fields with
    | nil => simp only [dumpsIndented, List.map_nil, bracketText]
    | cons field fields =>
      obtain ⟨key, value⟩ := field
      obtain ⟨ofField, ofFields⟩ := List.forall_mem_cons.mp inductionHypothesis
      rw [List.map_cons, bracketText, laidText_newline_fields format closeBrace (level + 1)
        (newline level) (fun other member => ofFields other member (level + 1)), dumpsIndented,
        ofField]
      simp only [laidField, List.append_assoc, List.cons_append]

end Format

theorem newline_blank (level : Nat) : AllBlank (newline level) := by
  intro char member
  rcases List.mem_cons.mp member with rfl | inIndent
  · decide
  · rw [List.eq_of_mem_replicate inIndent]
    decide

theorem toNat_ofNat_ascii (code : Fin 0x80) : (Char.ofNat code.val).toNat = code.val := by
  revert code
  decide

/-- The text is what a file has of it. -/
theorem ascii_dumpsIndented (format : FloatFormat Finite) (value : Json Finite) :
    (String.ofList ((dumpsIndented format value 0).map fun code =>
      Char.ofNat code.val)).toList.map codePoint = dumpsIndented format value 0 := by
  have small : ∀ char ∈ dumpsIndented format value 0, char.val < 0x80 := by
    rw [dumpsIndented_eq]
    refine forall_mem_dumpsLaid format (fun char printable => ?_) (fun level char member => ?_)
      value 0
    · exact lt_of_le_of_lt printable.2 (by decide)
    · rcases List.mem_cons.mp member with rfl | inIndent
      · decide
      · rw [List.eq_of_mem_replicate inIndent]
        decide
  rw [String.toList_ofList, List.map_map]
  refine (List.map_congr_left fun char member => ?_).trans (List.map_id _)
  exact Fin.ext (toNat_ofNat_ascii ⟨char.val, small char member⟩)

/-- What `_write_fd` writes. -/
def payload (data : List (Text × Json Finite)) : ByteArray :=
  (String.ofList ((dumpsIndented interpreter.format (Json.object data).sortKeys 0).map fun code =>
    Char.ofNat code.val)).toUTF8

/-- The statistics with their texts as a file gives them back. -/
def readAgain (data : List (Text × Json Finite)) : List (Text × Json Finite) :=
  data.map fun field => (field.1, field.2.sortKeys.rejoin)

def statKeys : List Text :=
  [text "usage_count", text "success_count", text "error_count", text "last_used_at",
    text "last_error_at", text "last_error_summary", text "last_optimized_at",
    text "schema_version"]

/-- The statistics have the keys of the defaults, in their order. -/
def HasKeys (data : List (Text × Json Finite)) : Prop := data.map Prod.fst = statKeys

theorem hasKeys_defaultStats : HasKeys (defaultStats : List (Text × Json Finite)) := rfl

theorem nodup_statKeys : statKeys.Nodup := by decide

theorem unsplit_statKeys : ∀ key ∈ statKeys, NoSplitPair key := by
  simp [statKeys, noSplitPair_text]

theorem lookup_of_hasKeys {data : List (Text × Json Finite)} (keys : HasKeys data)
    {field : Text × Json Finite} (member : field ∈ data) :
    data.lookup field.1 = some field.2 :=
  (lookup_eq_some (keys ▸ nodup_statKeys)).mpr member

/-- Where everything of the statistics comes back, nothing of the defaults is left. -/
theorem merged_back {data back : List (Text × Json Finite)} (keys : HasKeys data)
    (found : ∀ key, back.lookup key =
      (data.lookup key).map fun value => value.sortKeys.rejoin) :
    merged back = readAgain data := by
  have ofKey : ∀ key : Text, ∀ default : Json Finite, key ∈ statKeys →
      (back.lookup key).getD default = ((readAgain data).lookup key).getD .null := by
    intro key default member
    rw [← keys] at member
    obtain ⟨field, isField, rfl⟩ := List.mem_map.mp member
    have again : (readAgain data).lookup field.1 =
        (data.lookup field.1).map fun value => value.sortKeys.rejoin :=
      @lookup_map _ (fun value => value.sortKeys.rejoin) data field.1
    rw [found, again, lookup_of_hasKeys keys isField]
    rfl
  have ofDefaults : merged back =
      statKeys.map fun key => (key, ((readAgain data).lookup key).getD .null) := by
    have areKeys : HasKeys (defaultStats : List (Text × Json Finite)) := hasKeys_defaultStats
    rw [← areKeys, List.map_map]
    refine List.map_congr_left fun field member => congrArg (Prod.mk field.1) ?_
    exact ofKey field.1 field.2 (hasKeys_defaultStats ▸ List.mem_map_of_mem member)
  have keysAgain : HasKeys (readAgain data) := by
    unfold HasKeys readAgain
    rw [List.map_map]
    exact keys
  rw [ofDefaults, ← keysAgain, List.map_map]
  refine (List.map_congr_left fun field member => ?_).trans (List.map_id _)
  simp [lookup_of_hasKeys keysAgain member]

/-- What is written is read. -/
theorem readFd_payload {data : List (Text × Json Finite)} (keys : HasKeys data)
    (fits : (Json.object data).depth ≤ interpreter.scannerDepth)
    (few : (Json.object data).Everywhere (FewDigits interpreter.maxStrDigits)) :
    readFd interpreter (payload interpreter data) = .ok (readAgain data) := by
  have distinct : (data.map Prod.fst).Nodup := keys ▸ nodup_statKeys
  have unsplit : ∀ field ∈ data, NoSplitPair field.1 := by
    intro field member
    exact unsplit_statKeys field.1 (keys ▸ List.mem_map_of_mem member)
  obtain ⟨back, isBack, found⟩ := lookup_rejoin distinct unsplit
  have isRead : loads interpreter.format interpreter.maxStrDigits interpreter.scannerDepth
      (dumpsIndented interpreter.format (Json.object data).sortKeys 0) = .ok (.object back) := by
    rw [dumpsIndented_eq, loads_dumpsLaid _ _ newline_blank, readBack_of_fits, isBack]
    · rw [depth_sortKeys]
      exact fits
    · exact (everywhere_sortKeys fewDigits_sortKeys _).mpr few
  have notEmpty : ¬ (payload interpreter data).isEmpty = true := by
    intro isEmpty
    have nothing := eq_of_isEmpty_toUTF8 isEmpty
    have noText : dumpsIndented interpreter.format (Json.object data).sortKeys 0 = [] := by
      rw [← ascii_dumpsIndented, nothing]
      rfl
    rw [noText, loads, scanOnce_eq] at isRead
    cases isRead
  unfold readFd
  rw [if_neg notEmpty, payload, textOf_toUTF8]
  simp only [ascii_dumpsIndented, isRead]
  rw [merged_back keys found]

end LiteHorse.Skills.StatsFile
