import Mathlib.Data.List.Basic
import Mathlib.Tactic.Common

/-!
# Base64 with the URL-safe alphabet

Three bytes are four digits of six bits, and at the end one byte is two digits and two bytes are
three, without padding. What was encoded can be decoded (`Base64.decode_encode`), and all of it is
of the alphabet.
-/

namespace V2ray

namespace Base64

def alphabet : List Char :=
  "ABCDEFGHIJKLMNOPQRSTUVWXYZabcdefghijklmnopqrstuvwxyz0123456789-_".toList

/-- The digit for six bits. -/
def digit (n : ℕ) : Char := alphabet.getD n 'A'

/-- The six bits of a digit. -/
def value (c : Char) : Option ℕ :=
  let n := alphabet.idxOf c
  if n < 64 then some n else none

def encode : List UInt8 → List Char
  | [] => []
  | [a] => [digit (a.toNat / 4), digit (a.toNat % 4 * 16)]
  | [a, b] =>
    [digit (a.toNat / 4), digit (a.toNat % 4 * 16 + b.toNat / 16), digit (b.toNat % 16 * 4)]
  | a :: b :: c :: bytes =>
    digit (a.toNat / 4) :: digit (a.toNat % 4 * 16 + b.toNat / 16) ::
      digit (b.toNat % 16 * 4 + c.toNat / 64) :: digit (c.toNat % 64) :: encode bytes

/-- The bits that no byte is made of must be zero. -/
def decode : List Char → Option (List UInt8)
  | [] => some []
  | [p, q] => do
    let x ← value p
    let y ← value q
    if y % 16 = 0 then return [UInt8.ofNat (x * 4 + y / 16)] else none
  | [p, q, r] => do
    let x ← value p
    let y ← value q
    let z ← value r
    if z % 4 = 0 then
      return [UInt8.ofNat (x * 4 + y / 16), UInt8.ofNat (y % 16 * 16 + z / 4)]
    else none
  | p :: q :: r :: s :: digits => do
    let x ← value p
    let y ← value q
    let z ← value r
    let w ← value s
    let bytes ← decode digits
    return UInt8.ofNat (x * 4 + y / 16) :: UInt8.ofNat (y % 16 * 16 + z / 4) ::
      UInt8.ofNat (z % 4 * 64 + w) :: bytes
  | _ => none

theorem value_digit {n : ℕ} (h : n < 64) : value (digit n) = some n := by
  have h_all : ∀ n : Fin 64, value (digit n) = some n.val := by decide +kernel
  exact h_all ⟨n, h⟩

theorem digit_mem_alphabet {n : ℕ} (h : n < 64) : digit n ∈ alphabet := by
  have h_all : ∀ n : Fin 64, digit n ∈ alphabet := by decide +kernel
  exact h_all ⟨n, h⟩

/-- A byte, from what is left of it when it is cut in two. -/
theorem ofNat_parts (b : UInt8) {n : ℕ} (h : n = b.toNat) : UInt8.ofNat n = b := by
  rw [h, UInt8.ofNat_toNat]

/-- What is encoded is decoded to the same bytes. -/
theorem decode_encode (bytes : List UInt8) : decode (encode bytes) = some bytes := by
  -- on the groups of three bytes; only the last group has padding
  induction bytes using encode.induct with
  | case1 => rfl
  | case2 a =>
    have h_a := a.toNat_lt
    rw [encode, decode, value_digit (by omega), value_digit (by omega)]
    simp only [Option.bind_eq_bind, Option.bind_some]
    rw [if_pos (by omega), ofNat_parts a (by omega)]
    rfl
  | case3 a b =>
    have h_a := a.toNat_lt
    have h_b := b.toNat_lt
    rw [encode, decode, value_digit (by omega), value_digit (by omega), value_digit (by omega)]
    simp only [Option.bind_eq_bind, Option.bind_some]
    rw [if_pos (by omega), ofNat_parts a (by omega), ofNat_parts b (by omega)]
    rfl
  | case4 a b c bytes ih =>
    have h_a := a.toNat_lt
    have h_b := b.toNat_lt
    have h_c := c.toNat_lt
    rw [encode, decode, value_digit (by omega), value_digit (by omega), value_digit (by omega),
      value_digit (by omega), ih]
    simp only [Option.bind_eq_bind, Option.bind_some]
    rw [ofNat_parts a (by omega), ofNat_parts b (by omega), ofNat_parts c (by omega)]
    rfl

/-- Only characters of the alphabet come out. -/
theorem mem_alphabet_of_encode (bytes : List UInt8) : ∀ c ∈ encode bytes, c ∈ alphabet := by
  -- every digit is less than 64
  induction bytes using encode.induct with
  | case1 => exact fun c h => absurd h List.not_mem_nil
  | case2 a =>
    have h_a := a.toNat_lt
    rw [encode]
    simp only [List.forall_mem_cons]
    exact ⟨digit_mem_alphabet (by omega), digit_mem_alphabet (by omega), List.forall_mem_nil _⟩
  | case3 a b =>
    have h_a := a.toNat_lt
    have h_b := b.toNat_lt
    rw [encode]
    simp only [List.forall_mem_cons]
    exact ⟨digit_mem_alphabet (by omega), digit_mem_alphabet (by omega),
      digit_mem_alphabet (by omega), List.forall_mem_nil _⟩
  | case4 a b c bytes ih =>
    have h_a := a.toNat_lt
    have h_b := b.toNat_lt
    have h_c := c.toNat_lt
    rw [encode]
    simp only [List.forall_mem_cons]
    exact ⟨digit_mem_alphabet (by omega), digit_mem_alphabet (by omega),
      digit_mem_alphabet (by omega), digit_mem_alphabet (by omega), ih⟩

end Base64

end V2ray
