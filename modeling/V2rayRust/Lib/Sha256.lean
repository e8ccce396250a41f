import V2rayRust.Lib.Bytes
import V2rayRust.Lib.Hmac

/-!
# SHA-256

The hash itself, fed byte by byte (`Sha256.update`). It is incremental (`sha256_incremental`), since
a fold over bytes may be cut anywhere, and so is every HMAC over it.
-/

namespace V2ray

/-- The eight working variables. -/
structure Sha256Words where
  a : BitVec 32
  b : BitVec 32
  c : BitVec 32
  d : BitVec 32
  e : BitVec 32
  f : BitVec 32
  g : BitVec 32
  h : BitVec 32
  deriving DecidableEq

namespace Sha256

/-- The round constants. -/
def roundConstants : List (BitVec 32) :=
  [0x428a2f98, 0x71374491, 0xb5c0fbcf, 0xe9b5dba5, 0x3956c25b, 0x59f111f1, 0x923f82a4, 0xab1c5ed5,
    0xd807aa98, 0x12835b01, 0x243185be, 0x550c7dc3, 0x72be5d74, 0x80deb1fe, 0x9bdc06a7, 0xc19bf174,
    0xe49b69c1, 0xefbe4786, 0x0fc19dc6, 0x240ca1cc, 0x2de92c6f, 0x4a7484aa, 0x5cb0a9dc, 0x76f988da,
    0x983e5152, 0xa831c66d, 0xb00327c8, 0xbf597fc7, 0xc6e00bf3, 0xd5a79147, 0x06ca6351, 0x14292967,
    0x27b70a85, 0x2e1b2138, 0x4d2c6dfc, 0x53380d13, 0x650a7354, 0x766a0abb, 0x81c2c92e, 0x92722c85,
    0xa2bfe8a1, 0xa81a664b, 0xc24b8b70, 0xc76c51a3, 0xd192e819, 0xd6990624, 0xf40e3585, 0x106aa070,
    0x19a4c116, 0x1e376c08, 0x2748774c, 0x34b0bcb5, 0x391c0cb3, 0x4ed8aa4a, 0x5b9cca4f, 0x682e6ff3,
    0x748f82ee, 0x78a5636f, 0x84c87814, 0x8cc70208, 0x90befffa, 0xa4506ceb, 0xbef9a3f7, 0xc67178f2]

def init : Sha256Words :=
  ⟨0x6a09e667, 0xbb67ae85, 0x3c6ef372, 0xa54ff53a, 0x510e527f, 0x9b05688c, 0x1f83d9ab, 0x5be0cd19⟩

def round (s : Sha256Words) (k w : BitVec 32) : Sha256Words :=
  let t₁ := s.h + (s.e.rotateRight 6 ^^^ s.e.rotateRight 11 ^^^ s.e.rotateRight 25) +
    ((s.e &&& s.f) ^^^ (~~~s.e &&& s.g)) + k + w
  let t₂ := (s.a.rotateRight 2 ^^^ s.a.rotateRight 13 ^^^ s.a.rotateRight 22) +
    ((s.a &&& s.b) ^^^ (s.a &&& s.c) ^^^ (s.b &&& s.c))
  ⟨t₁ + t₂, s.a, s.b, s.c, s.d + t₁, s.e, s.f, s.g⟩

/-- The next `n` words of the schedule, the last of which is in front. -/
def schedule : ℕ → List (BitVec 32) → List (BitVec 32)
  | 0, ws => ws
  | n + 1, ws =>
    let x := ws.getD 14 0
    let y := ws.getD 1 0
    let w := ws.getD 15 0 + (x.rotateRight 7 ^^^ x.rotateRight 18 ^^^ x >>> 3) + ws.getD 6 0 +
      (y.rotateRight 17 ^^^ y.rotateRight 19 ^^^ y >>> 10)
    schedule n (w :: ws)

/-- The words of a block. -/
def ofBlock : List UInt8 → List (BitVec 32)
  | a :: b :: c :: d :: bs =>
    (a.toBitVec ++ b.toBitVec ++ c.toBitVec ++ d.toBitVec : BitVec 32) :: ofBlock bs
  | _ => []

def compress (s : Sha256Words) (block : List UInt8) : Sha256Words :=
  let ws := (schedule 48 (ofBlock block).reverse).reverse
  let t := (roundConstants.zip ws).foldl (fun s x => round s x.1 x.2) s
  ⟨s.a + t.a, s.b + t.b, s.c + t.c, s.d + t.d, s.e + t.e, s.f + t.f, s.g + t.g, s.h + t.h⟩

def bytes (s : Sha256Words) : List UInt8 :=
  [s.a, s.b, s.c, s.d, s.e, s.f, s.g, s.h].flatMap fun w => beBytes 4 w.toNat

end Sha256

/-- The blocks so far, the bytes behind them with the last in front, and the number of all
bytes. -/
structure Sha256 where
  words : Sha256Words
  buffer : List UInt8
  length : ℕ
  deriving DecidableEq

namespace Sha256

def new : Sha256 := ⟨init, [], 0⟩

def absorb (s : Sha256) (b : UInt8) : Sha256 :=
  let buffer := b :: s.buffer
  let length := s.length + 1
  if length % 64 = 0 then ⟨compress s.words buffer.reverse, [], length⟩
  else ⟨s.words, buffer, length⟩

def update (s : Sha256) (m : List UInt8) : Sha256 := m.foldl absorb s

/-- The padding of a message, and the digest. -/
def finalize (s : Sha256) : List UInt8 :=
  let zeros := (119 - s.length % 64) % 64
  bytes (s.update (0x80 :: List.replicate zeros 0 ++ beBytes 8 (8 * s.length))).words

theorem length_finalize (s : Sha256) : s.finalize.length = 32 := by
  unfold finalize bytes
  simp only [List.length_flatMap, length_beBytes]
  rfl

end Sha256

/-- SHA-256 as a hash. -/
def sha256 : Hasher Sha256 32 := ⟨Sha256.update, Sha256.finalize, Sha256.length_finalize⟩

theorem sha256_incremental : sha256.Incremental := by
  intro s pieces
  -- both are the same fold over bytes
  have h_feed : sha256.feed s pieces = sha256.update s pieces.flatten := by
    show pieces.foldl (List.foldl Sha256.absorb) s = pieces.flatten.foldl Sha256.absorb s
    rw [List.foldl_flatten]
  rw [h_feed]

end V2ray
