/-
This file models the gates that a candidate for a SKILL.md has to pass against the text it is to
replace: its size, the check of untrusted texts, its frontmatter and the tests.

PyYAML and the runner of the tests are parameters, and so is how many digits `str` gives an integer.
A candidate whose frontmatter passes has the name of the old text and a higher version, also for
the gates of the candidate after it (`baselineOf_candidate`).
-/

import LiteHorse.Agent.SkillCloud
import LiteHorse.Strings

namespace LiteHorse.Evolve

open Agent.SkillCloud (breakOn)
open Python Security

/-! ### Values of a frontmatter -/

/-- What `str` and `repr` make of a value. -/
structure Shown where
  text : Str
  nonempty : text ≠ []
  repr : String

inductive YamlValue where
  | null
  | bool (value : Bool)
  | int (value : Int)
  | str (value : Str)
  /-- A float, a date, bytes or a collection. An integer inside may have too many digits for it
  to be shown. -/
  | other (truthy : Bool) (shown : Option Shown)

/-- The items of a dictionary whose keys are strings. -/
abbrev Fields := List (String × YamlValue)

inductive YamlRaised where
  | yamlError (message : String)
  | otherError

/-- `yaml.safe_load`: the dictionary that it gives, if it is one. -/
abbrev SafeLoad := String → Except YamlRaised (Option Fields)

/-- What ends a check besides its result. -/
inductive GateRaised where
  | yaml
  /-- The `ValueError` of an integer with too many digits. -/
  | tooManyDigits
  | runner
deriving DecidableEq

section Values

variable (isPrintable : Char → Bool) (maxStrDigits : Nat)

/-- `bool(value)` -/
def YamlValue.truthy : YamlValue → Bool
  | .null => false
  | .bool value => value
  | .int value => value != 0
  | .str value => !value.isEmpty
  | .other truthy _ => truthy

/-- The value, if it is an `int`; a `bool` is one. -/
def YamlValue.asInt : YamlValue → Option Int
  | .bool value => some (if value then 1 else 0)
  | .int value => some value
  | .null | .str _ | .other .. => none

def intStr (value : Int) : Except GateRaised String :=
  if (toString value.natAbs).length ≤ maxStrDigits then .ok (toString value)
  else .error .tooManyDigits

/-- `str(value)` -/
def YamlValue.toStr : YamlValue → Except GateRaised Str
  | .null => .ok (Str.ofString "None")
  | .bool value => .ok (Str.ofString (if value then "True" else "False"))
  | .int value => (intStr maxStrDigits value).map Str.ofString
  | .str value => .ok value
  | .other _ (some shown) => .ok shown.text
  | .other _ none => .error .tooManyDigits

/-- `repr(value)` -/
def YamlValue.toRepr : YamlValue → Except GateRaised String
  | .null => .ok "None"
  | .bool value => .ok (if value then "True" else "False")
  | .int value => intStr maxStrDigits value
  | .str value => .ok (value.repr isPrintable)
  | .other _ (some shown) => .ok shown.repr
  | .other _ none => .error .tooManyDigits

end Values

/-! ### The gates -/

structure GateResult where
  name : String
  passed : Bool
  reason : String := ""
deriving DecidableEq

/-- `SKILL_MAX_BYTES` -/
def skillMaxBytes : Nat := 15360

def checkSize (candidate : String) : GateResult :=
  if skillMaxBytes < candidate.utf8ByteSize then
    { name := "size", passed := false,
      reason := toString candidate.utf8ByteSize ++ " > " ++ toString skillMaxBytes ++ " bytes" }
  else { name := "size", passed := true }

def checkInjection (candidate : String) : GateResult :=
  match checkUntrusted candidate with
  | .error error => { name := "injection", passed := false, reason := error }
  | .ok () => { name := "injection", passed := true }

/-- The text between the opening `---` and the next one at the start of a line, or what is
missing. -/
def blockOf (text : String) : Except String String :=
  if "---".toList.isPrefixOf text.toList then
    match breakOn "\n---".toList (text.toList.drop 3) with
    | some (block, _) => .ok (String.ofList block)
    | none => .error "missing closing '---'"
  else .error "missing opening '---'"

section Frontmatter

variable (isPrintable : Char → Bool) (maxStrDigits : Nat) (safeLoad : SafeLoad)

def frontmatterResult (passed : Bool) (reason : String) : GateResult :=
  { name := "frontmatter", passed, reason }

def checkVersion (version : YamlValue) (baselineVersion : Option Int) :
    Except GateRaised GateResult :=
  match version.asInt with
  | none => .ok (frontmatterResult false "version: must be an integer")
  | some value =>
    if value < baselineVersion.getD 0 + 1 then do
      let shown ← version.toStr maxStrDigits
      let least ← intStr maxStrDigits (baselineVersion.getD 0 + 1)
      return frontmatterResult false ("version " ++ shown.shown ++ " must be >= " ++ least)
    else .ok (frontmatterResult true "")

def checkFields (fields : Fields) (baselineName : Str) (baselineVersion : Option Int) :
    Except GateRaised GateResult :=
  let name := (fields.lookup "name").getD .null
  let differs := do
    let shown ← name.toRepr isPrintable maxStrDigits
    return frontmatterResult false
      ("name changed: " ++ shown ++ " != " ++ baselineName.repr isPrintable)
  match name with
  | .str value =>
    if value = baselineName then
      checkVersion maxStrDigits ((fields.lookup "version").getD .null) baselineVersion
    else differs
  | _ => differs

def checkFrontmatter (candidate : String) (baselineName : Str) (baselineVersion : Option Int) :
    Except GateRaised GateResult :=
  match blockOf candidate with
  | .error reason => .ok (frontmatterResult false reason)
  | .ok block =>
    match safeLoad block with
    | .error (.yamlError message) => .ok (frontmatterResult false ("invalid YAML: " ++ message))
    | .error .otherError => .error .yaml
    | .ok none => .ok (frontmatterResult false "frontmatter is not a mapping")
    | .ok (some fields) =>
      checkFields isPrintable maxStrDigits fields baselineName baselineVersion

/-- The name and the version of the text that a candidate is to replace, as they are read before
the gates. -/
def baselineOf (slug : Str) (baseline : String) : Except GateRaised (Str × Option Int) :=
  match blockOf baseline with
  | .error _ => .ok (slug, none)
  | .ok block =>
    match safeLoad block with
    | .error (.yamlError _) => .ok (slug, none)
    | .error .otherError => .error .yaml
    | .ok none => .ok (slug, none)
    | .ok (some fields) =>
      let name := (fields.lookup "name").getD .null
      let version := ((fields.lookup "version").getD .null).asInt
      (if name.truthy then name.toStr maxStrDigits else .ok slug).map fun name => (name, version)

end Frontmatter

/-- What the runner of the tests does. -/
inductive RunnerResult where
  | returned (passed : Bool)
  /-- An `OSError`, a `RuntimeError` or a `SubprocessError`. -/
  | crashed (message : String)
  | raised

def checkPytest : RunnerResult → Except GateRaised GateResult
  | .returned passed =>
    .ok { name := "pytest", passed, reason := if passed then "" else "test suite failed" }
  | .crashed message =>
    .ok { name := "pytest", passed := false, reason := "runner crashed: " ++ message }
  | .raised => .error .runner

/-! ### What passes -/

section Passed

variable {isPrintable : Char → Bool} {maxStrDigits : Nat} {safeLoad : SafeLoad} {slug name : Str}
  {version : Option Int} {text candidate : String} {result : GateResult}

theorem int_toString_ne_empty (value : Int) : toString value ≠ "" := by
  rw [Int.toString_eq_repr, Int.repr_eq_if]
  split
  · exact Nat.repr_ne_empty
  · intro isEmpty
    have minus := congrArg String.toList isEmpty
    rw [String.toList_append] at minus
    cases minus

theorem toStr_ne_nil {value : YamlValue} (truthy : value.truthy = true)
    (isText : value.toStr maxStrDigits = .ok name) : name ≠ [] := by
  cases value with
  | null => cases truthy
  | bool value =>
    cases isText
    cases value with
    | false => cases truthy
    | true => decide
  | int value =>
    obtain ⟨shown, isShown, rfl⟩ := map_eq_ok_iff.mp isText
    unfold intStr at isShown
    split at isShown
    · cases isShown
      exact fun isEmpty => int_toString_ne_empty value (ofString_injective isEmpty)
    · cases isShown
  | str value =>
    cases isText
    intro isEmpty
    rw [isEmpty] at truthy
    cases truthy
  | other isTruthy shown =>
    cases shown with
    | none => cases isText
    | some shown =>
      cases isText
      exact shown.nonempty

theorem baselineOf_name_ne_nil (notEmpty : slug ≠ [])
    (isBaseline : baselineOf maxStrDigits safeLoad slug text = .ok (name, version)) :
    name ≠ [] := by
  unfold baselineOf at isBaseline
  split at isBaseline
  next =>
    cases isBaseline
    exact notEmpty
  next block _ =>
    split at isBaseline
    next =>
      cases isBaseline
      exact notEmpty
    next => cases isBaseline
    next =>
      cases isBaseline
      exact notEmpty
    next fields _ =>
      obtain ⟨found, isName, same⟩ := map_eq_ok_iff.mp isBaseline
      cases same
      split at isName
      next truthy => exact toStr_ne_nil truthy isName
      next =>
        cases isName
        exact notEmpty

theorem checkVersion_passed {value : YamlValue}
    (checked : checkVersion maxStrDigits value version = .ok result)
    (passed : result.passed = true) : ∃ new, value.asInt = some new ∧ version.getD 0 < new := by
  unfold checkVersion at checked
  split at checked
  next =>
    cases checked
    cases passed
  next new isInt =>
    split at checked
    next =>
      obtain ⟨shown, _, checked⟩ := bind_eq_ok_iff.mp checked
      obtain ⟨least, _, checked⟩ := bind_eq_ok_iff.mp checked
      cases checked
      cases passed
    next enough => exact ⟨new, isInt, by omega⟩

theorem checkFields_passed {fields : Fields}
    (checked : checkFields isPrintable maxStrDigits fields name version = .ok result)
    (passed : result.passed = true) :
    (fields.lookup "name").getD .null = .str name ∧
      ∃ new, ((fields.lookup "version").getD .null).asInt = some new ∧ version.getD 0 < new := by
  have notDiffering : ∀ value : YamlValue, (do
      let shown ← value.toRepr isPrintable maxStrDigits
      return frontmatterResult false
        ("name changed: " ++ shown ++ " != " ++ name.repr isPrintable)) ≠
      (.ok result : Except GateRaised GateResult) := by
    intro value differs
    obtain ⟨shown, _, isResult⟩ := bind_eq_ok_iff.mp differs
    cases isResult
    cases passed
  unfold checkFields at checked
  dsimp only at checked
  split at checked
  next value isName =>
    split at checked
    next same => exact ⟨same ▸ isName, checkVersion_passed checked passed⟩
    next => exact absurd checked (notDiffering _)
  next => exact absurd checked (notDiffering _)

/-- A candidate whose frontmatter passes is read with the name of the old text and a higher
version. -/
theorem baselineOf_candidate (notEmpty : name ≠ [])
    (checked :
      checkFrontmatter isPrintable maxStrDigits safeLoad candidate name version = .ok result)
    (passed : result.passed = true) :
    ∃ new, baselineOf maxStrDigits safeLoad slug candidate = .ok (name, some new) ∧
      version.getD 0 < new := by
  unfold checkFrontmatter at checked
  unfold baselineOf
  split at checked
  next =>
    cases checked
    cases passed
  next block isBlock =>
    split at checked
    next =>
      cases checked
      cases passed
    next => cases checked
    next =>
      cases checked
      cases passed
    next fields isLoaded =>
      obtain ⟨isName, new, isNew, higher⟩ := checkFields_passed checked passed
      refine ⟨new, ?_, higher⟩
      dsimp only
      rw [isName, isNew]
      have truthy : (YamlValue.str name).truthy = true := by
        cases name with
        | nil => exact absurd rfl notEmpty
        | cons first rest => rfl
      rw [if_pos truthy]
      rfl

end Passed

end LiteHorse.Evolve
