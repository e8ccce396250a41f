import Mathlib.Algebra.Group.Nat.Defs
import Mathlib.Data.List.Basic

/-!
# Variable-length numbers

How a number is written in front of other bytes and read again (`Varint`), and the usual way:
seven bits to a byte, the lowest first, and a mark on all but the last (`Varint.base128`).
-/

namespace V2ray

/-- A way to write numbers, and to read one from the front of bytes. -/
structure Varint where
  encode : ℕ → List UInt8
  decode : List UInt8 → Option (ℕ × List UInt8)

/-- Reading inverts writing for numbers of 64 bits, whatever follows, and a number takes at most
ten bytes. -/
structure Varint.Lawful (V : Varint) : Prop where
  decode_encode : ∀ {n : ℕ}, n < 2 ^ 64 → ∀ rest, V.decode (V.encode n ++ rest) = some (n, rest)
  length_pos : ∀ {n : ℕ}, n < 2 ^ 64 → 0 < (V.encode n).length
  length_le : ∀ {n : ℕ}, n < 2 ^ 64 → (V.encode n).length ≤ 10

/-- A number is read off the front of bytes in one way. -/
theorem Varint.Lawful.inj {V : Varint} (h : V.Lawful) {m n : ℕ} (h_m : m < 2 ^ 64)
    (h_n : n < 2 ^ 64)
    {rest rest' : List UInt8} (h_eq : V.encode m ++ rest = V.encode n ++ rest') :
    m = n ∧ rest = rest' := by
  have h_dec := congrArg V.decode h_eq
  rw [h.decode_encode h_m, h.decode_encode h_n] at h_dec
  exact Prod.mk.inj (Option.some.inj h_dec)

namespace Varint

/-- The bytes of a number that takes at most one byte more than `k`. -/
def digits : ℕ → ℕ → List UInt8
  | 0, n => [UInt8.ofNat n]
  | k + 1, n =>
    if n < 128 then [UInt8.ofNat n] else UInt8.ofNat (n % 128 + 128) :: digits k (n / 128)

/-- Read at most `k` bytes; the last of ten has one bit. -/
def undigits : ℕ → List UInt8 → Option (ℕ × List UInt8)
  | 0, _ => none
  | _, [] => none
  | k + 1, b :: bs =>
    if b.toNat < 128 then
      if k = 0 ∧ 2 ≤ b.toNat then none else some (b.toNat, bs)
    else match undigits k bs with
      | none => none
      | some (m, rest) => some (b.toNat - 128 + 128 * m, rest)

/-- Numbers of 64 bits. -/
def base128 : Varint where
  encode := digits 9
  decode := undigits 10

/-- The digits of a number are read back, and what follows them is left. -/
theorem undigits_digits (k : ℕ) {n : ℕ} (h : n < 128 ^ k * 2) (rest : List UInt8) :
    undigits (k + 1) (digits k n ++ rest) = some (n, rest) := by
  -- on the bytes that may follow; the last one holds what is left of `n`
  induction k generalizing n with
  | zero =>
    have h_byte : (UInt8.ofNat n).toNat = n := by
      rw [UInt8.toNat_ofNat']
      omega
    show (if (UInt8.ofNat n).toNat < 128 then _ else _) = _
    rw [h_byte, if_pos (by omega), if_neg (by omega)]
    rfl
  | succ k ih =>
    rw [digits]
    split
    · next h_small =>
      have h_byte : (UInt8.ofNat n).toNat = n := by
        rw [UInt8.toNat_ofNat']
        omega
      show (if (UInt8.ofNat n).toNat < 128 then _ else _) = _
      rw [h_byte, if_pos h_small, if_neg (by omega)]
      rfl
    · next h_large =>
      -- a byte with the continuation bit: its seven bits, and the rest above them
      have h_byte : (UInt8.ofNat (n % 128 + 128)).toNat = n % 128 + 128 := by
        rw [UInt8.toNat_ofNat']
        omega
      have h_rest : undigits (k + 1) (digits k (n / 128) ++ rest) = some (n / 128, rest) := by
        refine ih (Nat.div_lt_of_lt_mul ?_)
        rw [Nat.pow_succ] at h
        omega
      rw [List.cons_append, undigits, h_byte, if_neg (by omega), h_rest]
      show some (n % 128 + 128 - 128 + 128 * (n / 128), rest) = _
      rw [Nat.add_sub_cancel, Nat.mod_add_div]

theorem length_digits (k n : ℕ) : 0 < (digits k n).length ∧ (digits k n).length ≤ k + 1 := by
  induction k generalizing n with
  | zero => exact ⟨Nat.one_pos, Nat.le_refl 1⟩
  | succ k ih =>
    rw [digits]
    split
    · exact ⟨Nat.one_pos, Nat.le_add_left 1 _⟩
    · exact ⟨Nat.succ_pos _, Nat.succ_le_succ (ih _).2⟩

theorem base128_lawful : base128.Lawful where
  decode_encode := by
    intro n h rest
    refine undigits_digits 9 (Nat.lt_of_lt_of_eq h ?_) rest
    decide
  length_pos _ := (length_digits 9 _).1
  length_le _ := (length_digits 9 _).2

end Varint

end V2ray
