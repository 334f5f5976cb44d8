/-
This file is about JSON texts with every item on a line of its own, as `json.dumps` writes them
with an `indent`, and about what `loads` makes of the text of any value.

What stands between two items is a gap that depends on how deep they are nested. Whatever blanks
the gaps are, the text is read as the one with a blank after every comma and colon
(`loads_dumpsLaid`).
-/

import LiteHorse.Library.JsonSpaced

namespace LiteHorse.JsonTexts

/-! ### Gaps -/

/-- All characters of a text are passed over. -/
def AllBlank (gap : Text) : Prop := ∀ char ∈ gap, isBlank char = true

variable {gap between after rest : Text} {closing : CodePoint}

theorem skipBlanks_gap (allBlank : AllBlank gap) (rest : Text) :
    skipBlanks (gap ++ rest) = skipBlanks rest :=
  List.dropWhile_append_of_pos allBlank

/-- The texts of the items, each on its line, and the closing bracket on another. -/
def laidText (closing : CodePoint) (between after : Text) : List Text → Text
  | [] => [closing]
  | [item] => item ++ (after ++ [closing])
  | item :: next :: rest =>
    item ++ comma :: (between ++ laidText closing between after (next :: rest))

/-- The brackets and what is in them. -/
def bracketText (opening closing : CodePoint) (between after : Text) : List Text → Text
  | [] => [opening, closing]
  | item :: rest => opening :: (between ++ laidText closing between after (item :: rest))

variable {Finite : Type}

section Write

variable (format : FloatFormat Finite) (gapAt : Nat → Text)

mutual

/-- `json.dumps` with an `indent`, of a value that is nested so deep. -/
def Json.dumpsLaid : Json Finite → Nat → Text
  | .null, _ => Json.null.dumps format
  | .bool value, _ => (Json.bool value).dumps format
  | .int value, _ => (Json.int value).dumps format
  | .float value, _ => (Json.float value).dumps format
  | .str value, _ => quote value
  | .array items, level =>
    bracketText openBracket closeBracket (gapAt (level + 1)) (gapAt level)
      (laidItems items (level + 1))
  | .object fields, level =>
    bracketText openBrace closeBrace (gapAt (level + 1)) (gapAt level)
      (laidFields fields (level + 1))

def laidItems : List (Json Finite) → Nat → List Text
  | [], _ => []
  | item :: rest, level => item.dumpsLaid level :: laidItems rest level

def laidFields : List (Text × Json Finite) → Nat → List Text
  | [], _ => []
  | (key, value) :: rest, level =>
    (quote key ++ colon :: blank :: value.dumpsLaid level) :: laidFields rest level

end

def laidField (level : Nat) (field : Text × Json Finite) : Text :=
  quote field.1 ++ colon :: blank :: field.2.dumpsLaid format gapAt level

theorem laidItems_eq (items : List (Json Finite)) (level : Nat) :
    laidItems format gapAt items level =
      items.map fun item => item.dumpsLaid format gapAt level := by
  induction items with
  | nil => rfl
  | cons item items inductionHypothesis => rw [laidItems, inductionHypothesis, List.map_cons]

theorem laidFields_eq (fields : List (Text × Json Finite)) (level : Nat) :
    laidFields format gapAt fields level = fields.map (laidField format gapAt level) := by
  induction fields with
  | nil => rfl
  | cons field fields inductionHypothesis =>
    rw [laidFields, inductionHypothesis, List.map_cons]
    rfl

theorem bracketText_head (opening closing : CodePoint) (between after : Text) (texts : List Text) :
    ∃ more, bracketText opening closing between after texts = opening :: more := by
  cases texts with
  | nil => exact ⟨_, rfl⟩
  | cons item rest => exact ⟨_, rfl⟩

/-- How a value's text starts. -/
theorem dumpsLaid_head (value : Json Finite) (level : Nat) :
    ∃ char rest, value.dumpsLaid format gapAt level = char :: rest ∧ isBlank char = false ∧
      char ≠ closeBracket ∧ Printable char := by
  cases value with
  | null => exact dumpsSpaced_head format .null
  | bool value => exact dumpsSpaced_head format (.bool value)
  | int value => exact dumpsSpaced_head format (.int value)
  | float value => exact dumpsSpaced_head format (.float value)
  | str value => exact dumpsSpaced_head format (.str value)
  | array items =>
    obtain ⟨more, starts⟩ := bracketText_head openBracket closeBracket (gapAt (level + 1))
      (gapAt level) (laidItems format gapAt items (level + 1))
    exact ⟨_, _, starts, by decide, by decide, by decide⟩
  | object fields =>
    obtain ⟨more, starts⟩ := bracketText_head openBrace closeBrace (gapAt (level + 1))
      (gapAt level) (laidFields format gapAt fields (level + 1))
    exact ⟨_, _, starts, by decide, by decide, by decide⟩

theorem skipBlanks_dumpsLaid (value : Json Finite) (level : Nat) (rest : Text) :
    skipBlanks (value.dumpsLaid format gapAt level ++ rest) =
      value.dumpsLaid format gapAt level ++ rest := by
  obtain ⟨char, more, starts, notBlank, _⟩ := dumpsLaid_head format gapAt value level
  rw [starts, List.cons_append, skipBlanks_cons notBlank]

theorem starts_dumpsLaid (value : Json Finite) (level : Nat) :
    Starts closeBracket (value.dumpsLaid format gapAt level) := by
  obtain ⟨char, rest, starts, notBlank, notClosing, _⟩ := dumpsLaid_head format gapAt value level
  exact ⟨char, rest, starts, notBlank, notClosing⟩

theorem starts_laidField (level : Nat) (field : Text × Json Finite) :
    Starts closeBrace (laidField format gapAt level field) :=
  ⟨quoteMark, _, rfl, by decide, by decide⟩

end Write

/-! ### Reading a sequence -/

/-- What may follow an item: blanks, and then a comma or the closing bracket. -/
def FollowsGap (closing : CodePoint) (rest : Text) : Prop :=
  ∃ gap more, AllBlank gap ∧ rest = gap ++ more ∧ Follows closing more

theorem delimited_of_blank {char : CodePoint} (isBlankChar : isBlank char = true) (rest : Text) :
    Delimited (char :: rest) := by
  have oneOf : char ∈ [codePoint ' ', codePoint '\t', codePoint '\n', codePoint '\r'] := by
    simp only [isBlank, Bool.or_eq_true, decide_eq_true_eq] at isBlankChar
    simp only [List.mem_cons, List.not_mem_nil, or_false, Fin.ext_iff, ← or_assoc]
    exact isBlankChar
  intro other same
  cases same
  simp only [List.mem_cons, List.not_mem_nil, or_false] at oneOf
  rcases oneOf with rfl | rfl | rfl | rfl
  all_goals exact ⟨by decide, by decide, by decide, by decide⟩

theorem delimited_of_followsGap (isBracket : closing = closeBracket ∨ closing = closeBrace)
    (follows : FollowsGap closing rest) : Delimited rest := by
  obtain ⟨gap, more, allBlank, rfl, followed⟩ := follows
  cases gap with
  | nil => exact delimited_of_follows isBracket followed
  | cons char gap => exact delimited_of_blank (allBlank char List.mem_cons_self) _

section Sequence

variable {Source Item : Type} {scanItem : Text → Except ScanError (Item × Text)}
  {textOf : Source → Text} {read : Source → Except ScanError Item}

theorem starts_laidText {texts : List Text} {first : Text} (starts : Starts closing first) :
    Starts closing (laidText closing between after (first :: texts)) := by
  obtain ⟨char, rest, rfl, notBlank, notClosing⟩ := starts
  cases texts with
  | nil => exact ⟨char, _, rfl, notBlank, notClosing⟩
  | cons next texts => exact ⟨char, _, rfl, notBlank, notClosing⟩

theorem scanSequence_end {bound : Nat} {text rest : Text} {item : Item}
    (notBlank : isBlank closing = false) (afterBlank : AllBlank after)
    (scanned : scanItem text = .ok (item, after ++ closing :: rest)) :
    scanSequence closing scanItem (bound + 1) text = .ok ([item], rest) := by
  rw [scanSequence, scanned]
  simp only [skipBlanks_gap afterBlank, skipBlanks_cons notBlank, if_true]

/-- A sequence is read item by item, up to the first item that is not read. -/
theorem scanSequence_laid (notBlank : isBlank closing = false) (notComma : comma ≠ closing)
    (betweenBlank : AllBlank between) (afterBlank : AllBlank after)
    {sources : List Source} (starts : ∀ source ∈ sources, Starts closing (textOf source))
    (reads : ∀ source ∈ sources, ∀ rest, FollowsGap closing rest →
      scanItem (textOf source ++ rest) = followed (read source) rest)
    (nonempty : sources ≠ []) (bound : Nat) (enough : sources.length ≤ bound) (rest : Text) :
    scanSequence closing scanItem bound
        (laidText closing between after (sources.map textOf) ++ rest) =
      followed (sources.mapM read) rest := by
  induction sources generalizing bound with
  | nil => exact absurd rfl nonempty
  | cons source sources inductionHypothesis =>
    obtain ⟨bound, rfl⟩ : ∃ fewer, bound = fewer + 1 :=
      Nat.exists_eq_succ_of_ne_zero (Nat.ne_zero_of_lt enough)
    have readsSource := reads source List.mem_cons_self
    cases sources with
    | nil =>
      have scanned := readsSource (after ++ closing :: rest)
        ⟨after, _, afterBlank, rfl, Or.inr rfl⟩
      show scanSequence closing scanItem (bound + 1)
        ((textOf source ++ (after ++ [closing])) ++ rest) = _
      rw [List.append_assoc, List.append_assoc, List.singleton_append, List.mapM_cons]
      cases isRead : read source with
      | error error =>
        rw [isRead] at scanned
        rw [scanSequence, scanned]
        rfl
      | ok item =>
        rw [isRead] at scanned
        exact scanSequence_end notBlank afterBlank scanned
    | cons next sources =>
      have more := inductionHypothesis
        (fun other member => starts other (List.mem_cons_of_mem source member))
        (fun other member => reads other (List.mem_cons_of_mem source member))
        (List.cons_ne_nil next sources) bound (Nat.le_of_succ_le_succ enough)
      have startsNext :
          Starts closing (laidText closing between after ((next :: sources).map textOf)) :=
        starts_laidText (starts next (List.mem_cons_of_mem source List.mem_cons_self))
      have scanned := readsSource
        (comma :: (between ++ (laidText closing between after ((next :: sources).map textOf) ++
          rest)))
        ⟨[], _, fun _ member => absurd member List.not_mem_nil, rfl, Or.inl rfl⟩
      show scanSequence closing scanItem (bound + 1)
        ((textOf source ++ comma ::
          (between ++ laidText closing between after ((next :: sources).map textOf))) ++ rest) = _
      rw [List.append_assoc, List.cons_append, List.append_assoc, List.mapM_cons]
      cases isRead : read source with
      | error error =>
        rw [isRead] at scanned
        rw [scanSequence, scanned]
        rfl
      | ok item =>
        rw [isRead] at scanned
        rw [scanSequence_next notComma scanned, skipBlanks_gap betweenBlank,
          skipBlanks_starts startsNext, more]
        cases (next :: sources).mapM read with
        | error error => rfl
        | ok items => rfl

theorem length_laidText (closing : CodePoint) (between after : Text) (texts : List Text) :
    texts.length ≤ (laidText closing between after texts).length := by
  induction texts with
  | nil => exact Nat.zero_le _
  | cons text texts inductionHypothesis =>
    cases texts with
    | nil =>
      simp only [laidText, List.length_append, List.length_cons, List.length_nil]
      omega
    | cons next texts =>
      rw [laidText]
      simp only [List.length_append, List.length_cons] at inductionHypothesis ⊢
      omega

/-- What follows the opening bracket. -/
theorem scanBrackets_laid (opening : CodePoint) (notBlank : isBlank closing = false)
    (notComma : comma ≠ closing) (betweenBlank : AllBlank between) (afterBlank : AllBlank after)
    {sources : List Source} (starts : ∀ source ∈ sources, Starts closing (textOf source))
    (reads : ∀ source ∈ sources, ∀ rest, FollowsGap closing rest →
      scanItem (textOf source ++ rest) = followed (read source) rest) (rest : Text) :
    ∃ inside,
      bracketText opening closing between after (sources.map textOf) ++ rest =
        opening :: inside ∧
      scanBrackets closing scanItem inside = followed (sources.mapM read) rest := by
  cases sources with
  | nil => exact ⟨closing :: rest, rfl, scanBrackets_empty notBlank rest⟩
  | cons source sources =>
    have length := length_laidText closing between after ((source :: sources).map textOf)
    obtain ⟨char, more, isText, charNotBlank, notClosing⟩ :
        Starts closing (laidText closing between after ((source :: sources).map textOf)) :=
      starts_laidText (starts source List.mem_cons_self)
    have scanned := scanSequence_laid notBlank notComma betweenBlank afterBlank starts reads
      (List.cons_ne_nil source sources)
      ((between ++ (laidText closing between after ((source :: sources).map textOf) ++
        rest)).length + 1)
      (by
        rw [List.length_map] at length
        simp only [List.length_append]
        omega) rest
    refine ⟨between ++ (laidText closing between after ((source :: sources).map textOf) ++ rest),
      ?_, ?_⟩
    · show (opening :: (between ++ _)) ++ rest = _
      rw [List.cons_append, List.append_assoc]
      rfl
    · rw [isText] at scanned ⊢
      rw [List.cons_append] at scanned ⊢
      rw [scanBrackets, skipBlanks_gap betweenBlank, skipBlanks_cons charNotBlank]
      simp only [if_neg notClosing]
      exact scanned

end Sequence

/-! ### Reading what was written -/

section Read

variable (format : FloatFormat Finite) (maxDigits : Nat) {gapAt : Nat → Text}

theorem scanField_laid {scan : Scanner Finite} {field : Text × Json Finite} {limit level : Nat}
    {rest : Text} (reads : scan (field.2.dumpsLaid format gapAt level ++ rest) =
      followed (field.2.readBack maxDigits limit) rest) :
    scanField scan (laidField format gapAt level field ++ rest) =
      followed (readBackField maxDigits limit field) rest := by
  obtain ⟨key, value⟩ := field
  have scanned := scanString_literal key
    (colon :: blank :: (value.dumpsLaid format gapAt level ++ rest))
  show scanField scan (quoteMark ::
    (((key.flatMap escapeChar ++ [quoteMark]) ++
      colon :: blank :: value.dumpsLaid format gapAt level) ++ rest)) = _
  rw [List.append_assoc, List.append_assoc, List.singleton_append, List.cons_append,
    List.cons_append, scanField]
  simp only [if_true, scanned, skipBlanks_cons (show isBlank colon = false by decide)]
  rw [skipBlanks_blank, skipBlanks_dumpsLaid, reads, readBackField]
  cases value.readBack maxDigits limit with
  | error error => rfl
  | ok value => rfl

/-- A value without brackets is written as ever. -/
theorem scanOnce_dumpsLaid_atom {value : Json Finite} {limit level : Nat} {rest : Text}
    (same : value.dumpsLaid format gapAt level = value.dumpsSpaced format)
    (delimited : Delimited rest) :
    scanOnce format maxDigits limit (value.dumpsLaid format gapAt level ++ rest) =
      followed (value.readBack maxDigits limit) rest := by
  rw [same]
  exact scanOnce_dumpsSpaced format maxDigits value limit delimited

/-- The scanner reads the text of any value as `readBack` says. -/
theorem scanOnce_dumpsLaid (blankGaps : ∀ level, AllBlank (gapAt level)) (value : Json Finite)
    (limit level : Nat) {rest : Text} (delimited : Delimited rest) :
    scanOnce format maxDigits limit (value.dumpsLaid format gapAt level ++ rest) =
      followed (value.readBack maxDigits limit) rest := by
  induction value using Json.induction generalizing limit level rest with
  | null => exact scanOnce_dumpsLaid_atom format maxDigits rfl delimited
  | bool value => exact scanOnce_dumpsLaid_atom format maxDigits rfl delimited
  | int value => exact scanOnce_dumpsLaid_atom format maxDigits rfl delimited
  | float value => exact scanOnce_dumpsLaid_atom format maxDigits rfl delimited
  | str value => exact scanOnce_dumpsLaid_atom format maxDigits rfl delimited
  | array items inductionHypothesis =>
    show scanOnce format maxDigits limit (bracketText openBracket closeBracket _ _
      (laidItems format gapAt items (level + 1)) ++ rest) = _
    rw [laidItems_eq]
    cases limit with
    | zero =>
      obtain ⟨more, starts⟩ := bracketText_head openBracket closeBracket (gapAt (level + 1))
        (gapAt level) (items.map fun item => item.dumpsLaid format gapAt (level + 1))
      rw [starts]
      rfl
    | succ limit =>
      obtain ⟨inside, isText, isRead⟩ :=
        scanBrackets_laid openBracket (by decide) (by decide)
          (blankGaps (level + 1)) (blankGaps level)
          (fun item _ => starts_dumpsLaid format gapAt item (level + 1))
          (fun item member rest follows => inductionHypothesis item member limit (level + 1)
            (delimited_of_followsGap (Or.inl rfl) follows)) rest
      rw [isText]
      show scanArray (scanOnce format maxDigits limit) inside = _
      rw [scanArray, isRead, Json.readBack, readBackItems_eq]
      cases items.mapM (Json.readBack maxDigits limit) with
      | error error => rfl
      | ok values => rfl
  | object fields inductionHypothesis =>
    show scanOnce format maxDigits limit (bracketText openBrace closeBrace _ _
      (laidFields format gapAt fields (level + 1)) ++ rest) = _
    rw [laidFields_eq]
    cases limit with
    | zero =>
      obtain ⟨more, starts⟩ := bracketText_head openBrace closeBrace (gapAt (level + 1))
        (gapAt level) (fields.map (laidField format gapAt (level + 1)))
      rw [starts]
      rfl
    | succ limit =>
      obtain ⟨inside, isText, isRead⟩ :=
        scanBrackets_laid openBrace (by decide) (by decide)
          (blankGaps (level + 1)) (blankGaps level)
          (fun field _ => starts_laidField format gapAt (level + 1) field)
          (fun field member rest follows => scanField_laid format maxDigits
            (inductionHypothesis field member limit (level + 1)
              (delimited_of_followsGap (Or.inr rfl) follows))) rest
      rw [isText]
      show scanObject (scanOnce format maxDigits limit) inside = _
      rw [scanObject, isRead, Json.readBack, readBackFields_eq]
      cases fields.mapM (readBackField maxDigits limit) with
      | error error => rfl
      | ok values => rfl

/-- What `loads` makes of the text of a value. -/
theorem loads_dumpsLaid (blankGaps : ∀ level, AllBlank (gapAt level)) (value : Json Finite)
    (limit level : Nat) :
    loads format maxDigits limit (value.dumpsLaid format gapAt level) =
      value.readBack maxDigits limit := by
  have scanned := scanOnce_dumpsLaid format maxDigits blankGaps value limit level delimited_nil
  have blanks := skipBlanks_dumpsLaid format gapAt value level []
  rw [List.append_nil] at scanned blanks
  have noMark : (value.dumpsLaid format gapAt level).head? ≠ some byteOrderMark := by
    obtain ⟨char, rest, starts, _, _, printable⟩ := dumpsLaid_head format gapAt value level
    rw [starts]
    rintro ⟨⟩
    exact absurd printable (by decide)
  rw [loads, if_neg noMark, blanks, scanned]
  cases value.readBack maxDigits limit with
  | error error => rfl
  | ok value => rfl

end Read

/-! ### The characters of a text -/

section Ascii

variable (format : FloatFormat Finite) {gapAt : Nat → Text}


theorem forall_mem_laidText {property : CodePoint → Prop} (ofClosing : property closing)
    (ofComma : property comma) (ofBetween : ∀ char ∈ between, property char)
    (ofAfter : ∀ char ∈ after, property char) {texts : List Text}
    (ofTexts : ∀ text ∈ texts, ∀ char ∈ text, property char) :
    ∀ char ∈ laidText closing between after texts, property char := by
  induction texts with
  | nil => simpa [laidText] using ofClosing
  | cons text texts inductionHypothesis =>
    obtain ⟨ofText, ofRest⟩ := List.forall_mem_cons.mp ofTexts
    cases texts with
    | nil =>
      simp only [laidText, List.forall_mem_append, List.forall_mem_singleton]
      exact ⟨ofText, ofAfter, ofClosing⟩
    | cons next texts =>
      simp only [laidText, List.forall_mem_append, List.forall_mem_cons]
      exact ⟨ofText, ofComma, ofBetween, inductionHypothesis ofRest⟩

theorem forall_mem_bracketText {property : CodePoint → Prop} {opening : CodePoint}
    (ofOpening : property opening) (ofClosing : property closing) (ofComma : property comma)
    (ofBetween : ∀ char ∈ between, property char) (ofAfter : ∀ char ∈ after, property char)
    {texts : List Text} (ofTexts : ∀ text ∈ texts, ∀ char ∈ text, property char) :
    ∀ char ∈ bracketText opening closing between after texts, property char := by
  cases texts with
  | nil => simpa [bracketText] using ⟨ofOpening, ofClosing⟩
  | cons text texts =>
    simp only [bracketText, List.forall_mem_append, List.forall_mem_cons]
    exact ⟨ofOpening, ofBetween,
      forall_mem_laidText ofClosing ofComma ofBetween ofAfter ofTexts⟩

/-- Nothing is written but what is printable or in a gap. -/
theorem forall_mem_dumpsLaid {property : CodePoint → Prop}
    (ofPrintable : ∀ char, Printable char → property char)
    (ofGap : ∀ level, ∀ char ∈ gapAt level, property char) (value : Json Finite) (level : Nat) :
    ∀ char ∈ value.dumpsLaid format gapAt level, property char := by
  have ofAtom : ∀ value : Json Finite, ∀ char ∈ value.dumps format, property char :=
    fun value char member => ofPrintable char (printable_dumps format value char member)
  induction value using Json.induction generalizing level with
  | null => exact ofAtom .null
  | bool value => exact ofAtom (.bool value)
  | int value => exact ofAtom (.int value)
  | float value => exact ofAtom (.float value)
  | str value => exact ofAtom (.str value)
  | array items inductionHypothesis =>
    rw [Json.dumpsLaid, laidItems_eq]
    refine forall_mem_bracketText (ofPrintable _ (by decide)) (ofPrintable _ (by decide))
      (ofPrintable _ (by decide)) (ofGap _) (ofGap _) ?_
    rw [List.forall_mem_map]
    exact fun item member => inductionHypothesis item member (level + 1)
  | object fields inductionHypothesis =>
    rw [Json.dumpsLaid, laidFields_eq]
    refine forall_mem_bracketText (ofPrintable _ (by decide)) (ofPrintable _ (by decide))
      (ofPrintable _ (by decide)) (ofGap _) (ofGap _) ?_
    rw [List.forall_mem_map]
    intro field member
    simp only [laidField, List.forall_mem_append, List.forall_mem_cons]
    exact ⟨fun char inKey => ofPrintable char (printable_quote field.1 char inKey),
      ofPrintable _ (by decide), ofPrintable _ (by decide),
      inductionHypothesis field member (level + 1)⟩

end Ascii

end LiteHorse.JsonTexts
