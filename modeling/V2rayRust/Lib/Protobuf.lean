import Mathlib.Tactic.Common
import V2rayRust.Lib.Varint

/-!
# Messages on the wire

A protobuf message is a list of fields: numbers, and bytes with their length in front, each
preceded by a tag. What a field means is up to the message; that a list of fields can be read back
is not (`decode_encode`).
-/

namespace V2ray

namespace Proto

open Varint

/-- What a field holds. -/
inductive WireValue
  | number (n : ℕ)
  | bytes (bs : List UInt8)
  deriving DecidableEq

structure Field where
  number : ℕ
  value : WireValue
  deriving DecidableEq

/-- Bytes with their length in front. -/
def lenPrefixed (bs : List UInt8) : List UInt8 := base128.encode bs.length ++ bs

/-- The number and the wire type of a field. -/
def Field.tag (f : Field) : ℕ :=
  f.number * 8 + match f.value with
    | .number _ => 0
    | .bytes _ => 2

def Field.encode (f : Field) : List UInt8 :=
  base128.encode f.tag ++ match f.value with
    | .number n => base128.encode n
    | .bytes bs => lenPrefixed bs

/-- The encoding of a message. -/
def encode (fs : List Field) : List UInt8 := fs.flatMap Field.encode

/-- A message that is encoded has less than two gigabytes. -/
def maxSize : ℕ := 2 ^ 31

def decodeField (bs : List UInt8) : Option (Field × List UInt8) := do
  let (tag, bs) ← base128.decode bs
  if tag < 8 ∨ 2 ^ 32 ≤ tag then none
  else if tag % 8 = 0 then do
    let (n, bs) ← base128.decode bs
    some (⟨tag / 8, .number n⟩, bs)
  else if tag % 8 = 2 then do
    let (n, bs) ← base128.decode bs
    if n ≤ bs.length then some (⟨tag / 8, .bytes (bs.take n)⟩, bs.drop n) else none
  else none

/-- At most so many fields. -/
def decodeFields : ℕ → List UInt8 → Option (List Field)
  | _, [] => some []
  | 0, _ :: _ => none
  | n + 1, b :: bs => do
    let (f, rest) ← decodeField (b :: bs)
    let fs ← decodeFields n rest
    some (f :: fs)

/-- The fields of a message. -/
def decode (bs : List UInt8) : Option (List Field) := decodeFields bs.length bs

/-! ### Reading back -/

/-- A field that can be written. -/
structure Field.Valid (f : Field) : Prop where
  number_pos : 0 < f.number
  number_lt : f.number < 2 ^ 29
  value_lt : match f.value with
    | .number n => n < 2 ^ 64
    | .bytes bs => bs.length < 2 ^ 64

@[simp] theorem encode_nil : encode [] = [] := rfl

theorem encode_cons (f : Field) (fs : List Field) : encode (f :: fs) = f.encode ++ encode fs := rfl

theorem encode_append (fs fs' : List Field) : encode (fs ++ fs') = encode fs ++ encode fs' :=
  List.flatMap_append

theorem Field.Valid.tag_lt {f : Field} (h : f.Valid) : 8 ≤ f.tag ∧ f.tag < 2 ^ 32 := by
  have h_pos := h.number_pos
  have h_lt := h.number_lt
  unfold Field.tag
  cases f.value <;> dsimp only <;> omega

theorem decode_lenPrefixed {bs : List UInt8} (h : bs.length < 2 ^ 64) (rest : List UInt8) :
    base128.decode (lenPrefixed bs ++ rest) = some (bs.length, bs ++ rest) := by
  unfold lenPrefixed
  rw [List.append_assoc]
  exact base128_lawful.decode_encode h _

/-- A field is read back, and what follows it is left. -/
theorem decodeField_encode {f : Field} (h : f.Valid) (rest : List UInt8) :
    decodeField (f.encode ++ rest) = some (f, rest) := by
  obtain ⟨h_pos, h_lt⟩ := h.tag_lt
  have h_value := h.value_lt
  have h_tag := base128_lawful.decode_encode (n := f.tag) (Nat.lt_trans h_lt (by decide))
  obtain ⟨number, value⟩ := f
  unfold decodeField Field.encode
  rw [List.append_assoc, h_tag]
  cases value with
  | number n =>
    -- the wire type is what is left of the tag modulo 8
    have h_num : Field.tag ⟨number, .number n⟩ = number * 8 := rfl
    dsimp only [Option.bind_eq_bind, Option.bind_some] at h_pos h_lt h_value ⊢
    rw [h_num] at h_pos h_lt ⊢
    rw [if_neg (by omega), if_pos (Nat.mul_mod_left number 8),
      base128_lawful.decode_encode h_value]
    dsimp only [Option.bind_some]
    rw [Nat.mul_div_cancel number (by decide)]
  | bytes bs =>
    have h_num : Field.tag ⟨number, .bytes bs⟩ = number * 8 + 2 := rfl
    dsimp only [Option.bind_eq_bind, Option.bind_some] at h_pos h_lt h_value ⊢
    rw [h_num] at h_pos h_lt ⊢
    rw [if_neg (by omega), if_neg (by omega), if_pos (by omega), decode_lenPrefixed h_value]
    dsimp only [Option.bind_some]
    have h_number : (number * 8 + 2) / 8 = number := by omega
    rw [if_pos (by rw [List.length_append]; exact Nat.le_add_right _ _), List.take_left,
      List.drop_left, h_number]

theorem length_encode_pos {f : Field} (h : f.Valid) : 0 < f.encode.length := by
  have h_tag := base128_lawful.length_pos (n := f.tag) (Nat.lt_trans h.tag_lt.2 (by decide))
  unfold Field.encode
  rw [List.length_append]
  exact Nat.add_pos_left h_tag _

theorem length_le_encode {fs : List Field} (h : ∀ f ∈ fs, f.Valid) :
    fs.length ≤ (encode fs).length := by
  induction fs with
  | nil => exact Nat.zero_le _
  | cons f fs ih =>
    have h_f := length_encode_pos (h f List.mem_cons_self)
    have h_fs := ih fun g hg => h g (List.mem_cons_of_mem _ hg)
    rw [encode_cons, List.length_append, List.length_cons]
    omega

/-- **A message is read back.** -/
theorem decode_encode {fs : List Field} (h : ∀ f ∈ fs, f.Valid) : decode (encode fs) = some fs := by
  -- the fuel is the length of the input, and each field takes at least one byte
  have h_run : ∀ fs : List Field, (∀ f ∈ fs, f.Valid) → ∀ n, fs.length ≤ n →
      decodeFields n (encode fs) = some fs := by
    intro fs
    induction fs with
    | nil =>
      intro _ n _
      cases n <;> rfl
    | cons f fs ih =>
      intro h_fs n h_n
      obtain ⟨n, rfl⟩ := Nat.exists_eq_add_of_lt (Nat.lt_of_lt_of_le (Nat.succ_pos _) h_n)
      have h_f := h_fs f List.mem_cons_self
      have h_rest := ih (fun g hg => h_fs g (List.mem_cons_of_mem _ hg)) n (by
        simp only [List.length_cons] at h_n
        omega)
      obtain ⟨b, bs, h_cons⟩ : ∃ b bs, encode (f :: fs) = b :: bs := by
        have h_pos := length_encode_pos h_f
        rw [encode_cons]
        cases h_enc : f.encode with
        | nil =>
          rw [h_enc] at h_pos
          cases h_pos
        | cons b bs => exact ⟨b, bs ++ encode fs, rfl⟩
      rw [Nat.zero_add, h_cons, decodeFields, ← h_cons, encode_cons, decodeField_encode h_f]
      show (decodeFields n (encode fs)).bind _ = _
      rw [h_rest]
      rfl
  exact h_run fs h _ (length_le_encode h)

/-! ### Sizes -/

theorem length_le_of_mem {f : Field} {fs : List Field} (h : f ∈ fs) :
    f.encode.length ≤ (encode fs).length := by
  obtain ⟨as, cs, rfl⟩ := List.append_of_mem h
  rw [encode_append, encode_cons, List.length_append, List.length_append]
  omega

/-- A field takes more than its bytes. -/
theorem length_bytes_lt (k : ℕ) (bs : List UInt8) :
    bs.length < (Field.encode ⟨k, .bytes bs⟩).length := by
  have h_tag : 0 < (base128.encode (Field.tag ⟨k, .bytes bs⟩)).length := (length_digits 9 _).1
  show _ < (base128.encode _ ++ (base128.encode _ ++ bs)).length
  rw [List.length_append, List.length_append]
  omega

theorem length_bytes_le {k : ℕ} {bs : List UInt8} {fs : List Field}
    (h : ⟨k, .bytes bs⟩ ∈ fs) : bs.length ≤ (encode fs).length :=
  Nat.le_trans (Nat.le_of_lt (length_bytes_lt k bs)) (length_le_of_mem h)

/-- The fields of a message that can be encoded can be written. -/
theorem valid_of_size {fs : List Field} (h : (encode fs).length < maxSize)
    (h_number : ∀ f ∈ fs, 0 < f.number ∧ f.number < 2 ^ 29)
    (h_value : ∀ f ∈ fs, ∀ n, f.value = .number n → n < 2 ^ 64) : ∀ f ∈ fs, f.Valid := by
  intro f hf
  refine ⟨(h_number f hf).1, (h_number f hf).2, ?_⟩
  obtain ⟨k, value⟩ := f
  cases value with
  | number n => exact h_value _ hf n rfl
  | bytes bs =>
    have h_le := length_bytes_le hf
    unfold maxSize at h
    show bs.length < 2 ^ 64
    omega

end Proto

end V2ray
