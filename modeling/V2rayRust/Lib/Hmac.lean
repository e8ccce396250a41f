import Mathlib.Data.List.Basic

/-!
# Incremental hashes and HMAC

A hash that is fed in pieces (`Hasher`), and what its hidden state stands for
(`Hasher.Computes`): a function of what is still to come. Feeding a state moves along its
function (`Computes.update`), and this is all that a construction on top of a hash needs to
know of it; HMAC is such a construction (`hmac`).
-/

namespace V2ray

/-- A hash with digests of `n` bytes, which is fed in pieces. -/
structure Hasher (σ : Type) (n : ℕ) where
  update : σ → List UInt8 → σ
  finalize : σ → List UInt8
  length_finalize : ∀ s, (finalize s).length = n

namespace Hasher

variable {σ : Type} {n : ℕ} (H : Hasher σ n)

/-- The pieces of a message, one after the other. -/
def feed (s : σ) (pieces : List (List UInt8)) : σ := pieces.foldl H.update s

/-- How a message is cut makes no difference to its digest. -/
def Incremental : Prop :=
  ∀ s pieces, H.finalize (H.feed s pieces) = H.finalize (H.update s pieces.flatten)

/-- The state `s` stands for `f`: it ends with `f` of what is fed to it, however that is cut. -/
def Computes (s : σ) (f : List UInt8 → List UInt8) : Prop :=
  ∀ pieces, H.finalize (H.feed s pieces) = f pieces.flatten

variable {H} {s : σ} {f : List UInt8 → List UInt8}

/-- Every state of an incremental hash stands for a function. -/
theorem Incremental.computes (h : H.Incremental) (s : σ) :
    H.Computes s fun m => H.finalize (H.update s m) :=
  h s

/-- What has been fed is in front of what is still to come. -/
theorem Computes.update (h : H.Computes s f) (m : List UInt8) :
    H.Computes (H.update s m) fun x => f (m ++ x) :=
  fun pieces => h (m :: pieces)

theorem Computes.finalize (h : H.Computes s f) : H.finalize s = f [] := h []

/-- A message that is fed at once. -/
theorem Computes.finalize_update (h : H.Computes s f) (m : List UInt8) :
    H.finalize (H.update s m) = f m := by
  have h_end := (h.update m).finalize
  rwa [List.append_nil] at h_end

theorem Computes.length (h : H.Computes s f) (m : List UInt8) : (f m).length = n := by
  rw [← h.finalize_update m]
  exact H.length_finalize _

end Hasher

/-! ### HMAC -/

/-- The key block: a key that is longer than a block is hashed, and zeros fill the block. -/
def hmacKey (b : ℕ) (f : List UInt8 → List UInt8) (key : List UInt8) : List UInt8 :=
  let k := if b < key.length then f key else key
  k ++ List.replicate (b - k.length) 0

/-- HMAC over `f`, a hash with blocks of `b` bytes. -/
def hmac (b : ℕ) (f : List UInt8 → List UInt8) (key m : List UInt8) : List UInt8 :=
  let k := hmacKey b f key
  f (k.map (· ^^^ 0x5C) ++ f (k.map (· ^^^ 0x36) ++ m))

/-- The hash that HMAC makes of `f` with one key after the other. -/
def nestedHmac (b : ℕ) (f : List UInt8 → List UInt8) (keys : List (List UInt8)) :
    List UInt8 → List UInt8 :=
  keys.foldl (hmac b) f

end V2ray
