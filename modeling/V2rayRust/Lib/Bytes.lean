import Mathlib.Data.List.Basic
import Mathlib.Data.Nat.ModEq

/-!
# Numbers as bytes

The bytes of a number, most significant first (`beBytes`) as headers hold them, and the value
of bytes in this order and in the other one, in which nonces are counted up.
-/

namespace V2ray

/-- The `n` low bytes of a number, most significant first. -/
def beBytes (n x : ℕ) : List UInt8 :=
  (List.range n).map fun i => UInt8.ofNat (x / 256 ^ (n - 1 - i))

/-- The value of bytes, most significant first. -/
def ofBeBytes : List UInt8 → ℕ
  | [] => 0
  | b :: bs => b.toNat * 256 ^ bs.length + ofBeBytes bs

/-- The `n` low bytes of a number, least significant first. -/
def leBytes : ℕ → ℕ → List UInt8
  | 0, _ => []
  | n + 1, x => UInt8.ofNat x :: leBytes n (x / 256)

/-- The value of bytes, least significant first. -/
def ofLeBytes : List UInt8 → ℕ
  | [] => 0
  | b :: bs => b.toNat + 256 * ofLeBytes bs

/-- `format!("{:#x}", b)` -/
def hexText (b : UInt8) : String := "0x" ++ String.ofList (Nat.toDigits 16 b.toNat)

@[simp] theorem length_beBytes (n x : ℕ) : (beBytes n x).length = n := by
  rw [beBytes, List.length_map, List.length_range]

theorem beBytes_succ (n x : ℕ) :
    beBytes (n + 1) x = UInt8.ofNat (x / 256 ^ n) :: beBytes n x := by
  rw [beBytes, beBytes, List.range_succ_eq_map, List.map_cons, List.map_map]
  congr 1
  refine List.map_congr_left fun i _ => ?_
  show UInt8.ofNat (x / 256 ^ (n + 1 - 1 - (i + 1))) = _
  congr 3
  omega

theorem ofBeBytes_beBytes (n x : ℕ) : ofBeBytes (beBytes n x) = x % 256 ^ n := by
  induction n with
  | zero => rw [Nat.pow_zero, Nat.mod_one]; rfl
  | succ n ih =>
    have h_digit : (UInt8.ofNat (x / 256 ^ n)).toNat = x / 256 ^ n % 256 := by
      rw [UInt8.toNat_ofNat']
    rw [beBytes_succ, ofBeBytes, ih, length_beBytes, h_digit, Nat.mod_pow_succ, Nat.mul_comm,
      Nat.add_comm]

theorem ofBeBytes_lt (bs : List UInt8) : ofBeBytes bs < 256 ^ bs.length := by
  induction bs with
  | nil => exact Nat.one_pos
  | cons b bs ih =>
    have h_b : b.toNat * 256 ^ bs.length ≤ 255 * 256 ^ bs.length :=
      Nat.mul_le_mul_right _ (Nat.le_of_lt_succ b.toNat_lt)
    rw [ofBeBytes, List.length_cons, Nat.pow_succ]
    omega

/-- Bytes are those of their number, in as many places. -/
theorem beBytes_ofBeBytes (bs : List UInt8) : beBytes bs.length (ofBeBytes bs) = bs := by
  induction bs with
  | nil => rfl
  | cons b bs ih =>
    have h_pos : 0 < 256 ^ bs.length := Nat.pow_pos (by decide)
    have h_lt := ofBeBytes_lt bs
    have h_low (x : ℕ) : beBytes bs.length (x * 256 ^ bs.length + ofBeBytes bs) =
        beBytes bs.length (ofBeBytes bs) := by
      rw [beBytes, beBytes]
      refine List.map_congr_left fun i h_i => ?_
      have h_i := List.mem_range.mp h_i
      obtain ⟨k, h_k⟩ : ∃ k, bs.length = i + 1 + k := ⟨bs.length - (i + 1), by omega⟩
      have h_split : x * 256 ^ bs.length = x * 256 ^ i * 256 * 256 ^ k := by
        rw [h_k, Nat.pow_add, Nat.pow_succ, Nat.mul_assoc, Nat.mul_assoc, Nat.mul_assoc]
      rw [show bs.length - 1 - i = k by omega, h_split, Nat.add_comm,
        Nat.add_mul_div_right _ _ (Nat.pow_pos (by decide))]
      -- What stands above the digit is a multiple of 256.
      refine UInt8.toNat_inj.mp ?_
      rw [UInt8.toNat_ofNat', UInt8.toNat_ofNat', Nat.add_mul_mod_self_right]
    rw [List.length_cons, beBytes_succ, ofBeBytes, h_low, ih, Nat.add_comm,
      Nat.add_mul_div_right _ _ h_pos, Nat.div_eq_of_lt h_lt, Nat.zero_add]
    congr 1
    exact UInt8.ofNat_toNat

/-- Numbers that fit are told apart by their bytes. -/
theorem beBytes_inj {n x y : ℕ} (hx : x < 256 ^ n) (hy : y < 256 ^ n)
    (h : beBytes n x = beBytes n y) : x = y := by
  have h_value := congrArg ofBeBytes h
  rwa [ofBeBytes_beBytes, ofBeBytes_beBytes, Nat.mod_eq_of_lt hx, Nat.mod_eq_of_lt hy] at h_value

theorem ofLeBytes_lt (bs : List UInt8) : ofLeBytes bs < 256 ^ bs.length := by
  induction bs with
  | nil => exact Nat.one_pos
  | cons b bs ih =>
    have h_b : b.toNat < 256 := b.toNat_lt
    rw [ofLeBytes, List.length_cons, Nat.pow_succ]
    omega

@[simp] theorem ofLeBytes_replicate_zero (n : ℕ) : ofLeBytes (List.replicate n 0) = 0 := by
  induction n with
  | zero => rfl
  | succ n ih => rw [List.replicate_succ, ofLeBytes, ih]; rfl

@[simp] theorem length_leBytes (n x : ℕ) : (leBytes n x).length = n := by
  induction n generalizing x with
  | zero => rfl
  | succ n ih => rw [leBytes, List.length_cons, ih]

theorem ofLeBytes_leBytes (n x : ℕ) : ofLeBytes (leBytes n x) = x % 256 ^ n := by
  induction n generalizing x with
  | zero => rw [Nat.pow_zero, Nat.mod_one]; rfl
  | succ n ih =>
    have h_byte : (UInt8.ofNat x).toNat = x % 256 := UInt8.toNat_ofNat'
    rw [leBytes, ofLeBytes, ih, h_byte, Nat.pow_succ, Nat.mul_comm (256 ^ n) 256, Nat.mod_mul]

theorem leBytes_ofLeBytes (bs : List UInt8) : leBytes bs.length (ofLeBytes bs) = bs := by
  induction bs with
  | nil => rfl
  | cons b bs ih =>
    have h_b : b.toNat < 256 := b.toNat_lt
    have h_div : (b.toNat + 256 * ofLeBytes bs) / 256 = ofLeBytes bs := by omega
    have h_byte : UInt8.ofNat (b.toNat + 256 * ofLeBytes bs) = b := by
      refine UInt8.toNat_inj.mp ?_
      rw [UInt8.toNat_ofNat', Nat.add_mul_mod_self_left]
      exact Nat.mod_eq_of_lt h_b
    rw [List.length_cons, leBytes, ofLeBytes, h_div, ih, h_byte]

/-- Numbers that fit are told apart by their bytes in this order, too. -/
theorem leBytes_inj {n x y : ℕ} (hx : x < 256 ^ n) (hy : y < 256 ^ n)
    (h : leBytes n x = leBytes n y) : x = y := by
  have h_value := congrArg ofLeBytes h
  rwa [ofLeBytes_leBytes, ofLeBytes_leBytes, Nat.mod_eq_of_lt hx, Nat.mod_eq_of_lt hy] at h_value

theorem eq_replicate_zero_of_ofLeBytes {bs : List UInt8} (h : ofLeBytes bs = 0) :
    bs = List.replicate bs.length 0 := by
  induction bs with
  | nil => rfl
  | cons b bs ih =>
    rw [ofLeBytes] at h
    have h_b : b = 0 := UInt8.toNat_inj.mp (by show b.toNat = 0; omega)
    rw [List.length_cons, List.replicate_succ, h_b, ← ih (by omega)]

/-! ### Byte arrays -/

/-- The loop of `ByteArray.toList` lists the bytes from an index on. -/
theorem toList_loop (bs : ByteArray) (i : ℕ) (r : List UInt8) :
    ByteArray.toList.loop bs i r = r.reverse ++ bs.data.toList.drop i := by
  induction i, r using ByteArray.toList.loop.induct bs with
  | case1 i r h_lt ih =>
    have h_data : i < bs.data.toList.length := h_lt
    rw [ByteArray.toList.loop, if_pos h_lt, ih, List.reverse_cons, List.append_assoc,
      List.drop_eq_getElem_cons h_data]
    have h_get : bs.get! i = bs.data.toList[i] := by
      show bs.data[i]! = _
      rw [getElem!_pos bs.data i h_lt]
      rfl
    rw [h_get]
    rfl
  | case2 i r h_ge =>
    have h_data : bs.data.toList.length ≤ i := Nat.le_of_not_lt h_ge
    rw [ByteArray.toList.loop, if_neg h_ge, List.drop_eq_nil_of_le h_data, List.append_nil]

theorem toList_byteArray (bs : ByteArray) : bs.toList = bs.data.toList :=
  toList_loop bs 0 []

/-- Bytes that are the text of a string. -/
theorem fromUTF8?_eq_some {bs : List UInt8} {s : String} :
    String.fromUTF8? ⟨bs.toArray⟩ = some s ↔ s.toUTF8.toList = bs := by
  unfold String.fromUTF8?
  have h_eq {a : ByteArray} : a.toList = bs ↔ a = ⟨bs.toArray⟩ := by
    rw [toList_byteArray]
    constructor
    · rintro rfl
      rfl
    · rintro rfl
      rfl
  rw [h_eq]
  constructor
  · intro h
    split at h
    · cases h
      rfl
    · cases h
  · intro h
    rw [← h]
    exact dif_pos s.isValidUTF8

@[simp] theorem length_toUTF8_toList (s : String) : s.toUTF8.toList.length = s.toUTF8.size := by
  rw [toList_byteArray]
  rfl

end V2ray
