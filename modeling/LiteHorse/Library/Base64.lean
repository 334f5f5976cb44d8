/-
This file is about Base64 with padding: three bytes are four digits, and a last group of one or
two bytes is padded with `=`. Decoding is defined on the texts that encoding produces, and gives
the bytes back (`decode_encode`).
-/

import Mathlib.Data.List.Basic
import Mathlib.Tactic.Common

namespace LiteHorse.Base64

def alphabet : List Char :=
  "ABCDEFGHIJKLMNOPQRSTUVWXYZabcdefghijklmnopqrstuvwxyz0123456789+/".toList

def digit (value : Nat) : Char := alphabet.getD value '='

def digitValue (char : Char) : Option Nat :=
  if char ∈ alphabet then some (alphabet.idxOf char) else none

theorem digitValue_digit {value : Nat} (small : value < 64) :
    digitValue (digit value) = some value := by
  have all : ∀ value : Fin 64, digitValue (digit value) = some value.val := by decide +kernel
  exact all ⟨value, small⟩

theorem digit_ne_pad {value : Nat} (small : value < 64) : digit value ≠ '=' := by
  intro isPad
  have known := digitValue_digit small
  have unknown : digitValue '=' = none := by decide +kernel
  rw [isPad, unknown] at known
  cases known

def encode : List UInt8 → List Char
  | [] => []
  | [first] => [digit (first.toNat / 4), digit (first.toNat % 4 * 16), '=', '=']
  | [first, second] =>
    [digit (first.toNat / 4), digit (first.toNat % 4 * 16 + second.toNat / 16),
      digit (second.toNat % 16 * 4), '=']
  | first :: second :: third :: rest =>
    digit (first.toNat / 4) :: digit (first.toNat % 4 * 16 + second.toNat / 16) ::
      digit (second.toNat % 16 * 4 + third.toNat / 64) :: digit (third.toNat % 64) :: encode rest

def decode : List Char → Option (List UInt8)
  | [] => some []
  | one :: two :: three :: four :: rest => do
    let a ← digitValue one
    let b ← digitValue two
    if four = '=' then
      if three = '=' then
        if rest = [] then some [UInt8.ofNat (a * 4 + b / 16)] else none
      else
        let c ← digitValue three
        if rest = [] then
          some [UInt8.ofNat (a * 4 + b / 16), UInt8.ofNat (b % 16 * 16 + c / 4)]
        else none
    else
      let c ← digitValue three
      let d ← digitValue four
      let bytes ← decode rest
      some (UInt8.ofNat (a * 4 + b / 16) :: UInt8.ofNat (b % 16 * 16 + c / 4) ::
        UInt8.ofNat (c % 4 * 64 + d) :: bytes)
  | _ => none

/-- A byte that is put together again from its upper and its lower bits. -/
theorem ofNat_of_eq (byte : UInt8) {value : Nat} (same : value = byte.toNat) :
    UInt8.ofNat value = byte := by
  rw [same]
  exact UInt8.ofNat_toNat

theorem decode_encode (bytes : List UInt8) : decode (encode bytes) = some bytes := by
  induction bytes using encode.induct with
  | case1 => rfl
  | case2 first =>
    have small := first.toNat_lt
    simp only [encode, decode, if_true, digitValue_digit (show first.toNat / 4 < 64 by omega),
      digitValue_digit (show first.toNat % 4 * 16 < 64 by omega), Option.bind_eq_bind,
      Option.bind_some]
    rw [ofNat_of_eq first (by omega)]
  | case3 first second =>
    have small := first.toNat_lt
    have secondSmall := second.toNat_lt
    simp only [encode, decode, if_true, digitValue_digit (show first.toNat / 4 < 64 by omega),
      digitValue_digit (show first.toNat % 4 * 16 + second.toNat / 16 < 64 by omega),
      digitValue_digit (show second.toNat % 16 * 4 < 64 by omega),
      if_neg (digit_ne_pad (show second.toNat % 16 * 4 < 64 by omega)), Option.bind_eq_bind,
      Option.bind_some]
    rw [ofNat_of_eq first (by omega), ofNat_of_eq second (by omega)]
  | case4 first second third rest inductionHypothesis =>
    have small := first.toNat_lt
    have secondSmall := second.toNat_lt
    have thirdSmall := third.toNat_lt
    simp only [encode, decode, digitValue_digit (show first.toNat / 4 < 64 by omega),
      digitValue_digit (show first.toNat % 4 * 16 + second.toNat / 16 < 64 by omega),
      digitValue_digit (show second.toNat % 16 * 4 + third.toNat / 64 < 64 by omega),
      digitValue_digit (show third.toNat % 64 < 64 by omega),
      if_neg (digit_ne_pad (show third.toNat % 64 < 64 by omega)), inductionHypothesis,
      Option.bind_eq_bind, Option.bind_some]
    rw [ofNat_of_eq first (by omega), ofNat_of_eq second (by omega),
      ofNat_of_eq third (by omega)]

end LiteHorse.Base64
