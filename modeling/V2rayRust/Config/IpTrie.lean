import Mathlib.Data.List.Basic
import V2rayRust.Lib.Fault

/-!
# The CIDR matcher

`config/ip_trie.rs`: two binary tries, one for each address family, whose nodes are
indices into three parallel vectors, and `GeoIPMatcher`, which keeps the outbound tags in
a vector of its own and stores their positions in the tries. The macro `impl_trie!` is one
definition over the width `w` of `$ip_type`; `PatriciaTrie4` and `PatriciaTrie6` are its
instances at 32 and 128.
-/

namespace V2ray

/-- `$ip_type::nullptr()`, and the `u32::MAX` that stands for "no value". -/
def nullptr (w : ℕ) : BitVec w := BitVec.allOnes w

/-- `x as usize` on a 64-bit target. -/
def asUsize {w : ℕ} (x : BitVec w) : ℕ := x.toNat % 2 ^ 64

/-- `ip >> (width - prefix) << (width - prefix)`; `prefix` and the subtraction are `u8`. -/
def normalizeTo (p : Profile) {w : ℕ} (width : ℕ) (ip : BitVec w) (pre : UInt8) :
    Except Fault (BitVec w) := do
  let s ← p.sub 8 width pre.toNat
  let s ← p.shiftAmount w s
  return ip >>> s <<< s

def normalize (p : Profile) (ip : BitVec 32) (pre : UInt8) : Except Fault (BitVec 32) :=
  normalizeTo p 32 ip pre

def normalize6 (p : Profile) (ip : BitVec 128) (pre : UInt8) : Except Fault (BitVec 128) :=
  normalizeTo p 128 ip pre

structure PatriciaTrie (w : ℕ) where
  left : List (BitVec w)
  right : List (BitVec w)
  value : List (BitVec 32)
  size : ℕ
  deriving DecidableEq

abbrev PatriciaTrie4 := PatriciaTrie 32
abbrev PatriciaTrie6 := PatriciaTrie 128

namespace PatriciaTrie

variable {w : ℕ}

def new : PatriciaTrie w where
  left := [nullptr w]
  right := [nullptr w]
  value := [nullptr 32]
  size := 1

/-- The pointer that `bit` of `key` selects at `node`. -/
def next (t : PatriciaTrie w) (key bit node : BitVec w) : Except Fault (BitVec w) :=
  if key &&& bit ≠ 0 then index t.right (asUsize node) else index t.left (asUsize node)

/-- The first loop of `put`: follow the existing nodes. It returns `bit`, `node` and
`next` as the loop leaves them. The fuel is the number of shifts `bit` can take. -/
def descend (t : PatriciaTrie w) (key mask : BitVec w) :
    ℕ → BitVec w → BitVec w → BitVec w → Except Fault (BitVec w × BitVec w × BitVec w)
  | 0, bit, node, nxt => .ok (bit, node, nxt)
  | n + 1, bit, node, nxt =>
    if bit &&& mask ≠ 0 then do
      let nxt ← t.next key bit node
      if nxt = nullptr w then return (bit, node, nxt)
      descend t key mask n (bit >>> 1) nxt nxt
    else .ok (bit, node, nxt)

/-- One round of the second loop of `put`: a new node, hung under `node`. -/
def pushChild (t : PatriciaTrie w) (key bit node : BitVec w) :
    Except Fault (PatriciaTrie w) := do
  let nxt := BitVec.ofNat w t.size
  let value := t.value ++ [nullptr 32]
  let left := t.left ++ [nullptr w]
  let right := t.right ++ [nullptr w]
  if key &&& bit ≠ 0 then
    return ⟨left, ← assign right (asUsize node) nxt, value, t.size + 1⟩
  else
    return ⟨← assign left (asUsize node) nxt, right, value, t.size + 1⟩

/-- The second loop of `put`: add the missing nodes. It returns the trie and `node`. -/
def extend (key mask : BitVec w) :
    ℕ → PatriciaTrie w → BitVec w → BitVec w → Except Fault (PatriciaTrie w × BitVec w)
  | 0, t, _, node => .ok (t, node)
  | n + 1, t, bit, node =>
    if bit &&& mask ≠ 0 then do
      let t' ← t.pushChild key bit node
      extend key mask n t' (bit >>> 1) (BitVec.ofNat w t.size)
    else .ok (t, node)

def put (p : Profile) (t : PatriciaTrie w) (key : BitVec w) (pre : UInt8) (value : BitVec 32) :
    Except Fault (PatriciaTrie w) := do
  let s ← p.shiftAmount w (← p.sub 64 w pre.toNat)
  let mask := ((1#w <<< s) - 1#w) ^^^ nullptr w
  let (bit, node, nxt) ← t.descend key mask w (1#w <<< (w - 1)) 0 0
  if nxt ≠ nullptr w then
    return { t with value := ← assign t.value (asUsize node) value }
  let (t, node) ← extend key mask w t bit node
  return { t with value := ← assign t.value (asUsize node) value }

/-- The loop of `get`; a walk that outlives its fuel never ends (see `get`). -/
def getLoop (t : PatriciaTrie w) (key : BitVec w) :
    ℕ → BitVec w → BitVec 32 → BitVec w → Except Fault (BitVec 32)
  | 0, _, _, _ => .error .diverge
  | n + 1, bit, value, node =>
    if node ≠ nullptr w then do
      let v ← index t.value (asUsize node)
      let value := if v ≠ nullptr 32 then v else value
      let node ← t.next key bit node
      getLoop t key n (bit >>> 1) value node
    else .ok value

/-- `get` starts at bit 31 whatever `$ip_type` is: `std::mem::size_of::<u32>() * 8`. After
at most `w` rounds `bit` is zero and the walk only depends on the node, so one of
`size + 1` further rounds ends it or repeats a node. -/
def get (t : PatriciaTrie w) (key : BitVec w) : Except Fault (Option (BitVec 32)) := do
  let value ← t.getLoop key (w + t.size + 2) (1#w <<< (32 - 1)) (nullptr 32) 0
  return if value = nullptr 32 then none else some value

end PatriciaTrie

structure GeoIPMatcher where
  trie4 : PatriciaTrie4
  trie6 : PatriciaTrie6
  outbound : List String
  deriving DecidableEq

namespace GeoIPMatcher

def new : GeoIPMatcher where
  trie4 := PatriciaTrie.new
  trie6 := PatriciaTrie.new
  outbound := []

def match4 (m : GeoIPMatcher) (ip : BitVec 32) : Except Fault String := do
  match ← m.trie4.get ip with
  | some c => index m.outbound (asUsize c)
  | none => return ""

def match6 (m : GeoIPMatcher) (ip : BitVec 128) : Except Fault String := do
  match ← m.trie6.get ip with
  | some c => index m.outbound (asUsize c)
  | none => return ""

/-- The position of `outbound` in the tag vector, where it is added if it is new. -/
def getOutboundPos (m : GeoIPMatcher) (outbound : String) : ℕ × GeoIPMatcher :=
  match m.outbound.findIdx? (· == outbound) with
  | some p => (p, m)
  | none => (m.outbound.length, { m with outbound := m.outbound ++ [outbound] })

def putV6 (p : Profile) (m : GeoIPMatcher) (ip6 : BitVec 128) (pre : UInt8)
    (outbound : String) : Except Fault GeoIPMatcher := do
  let (pos, m) := m.getOutboundPos outbound
  let ip6 ← normalize6 p ip6 pre
  return { m with trie6 := ← m.trie6.put p ip6 pre (BitVec.ofNat 32 pos) }

def putV4 (p : Profile) (m : GeoIPMatcher) (ip4 : BitVec 32) (pre : UInt8)
    (outbound : String) : Except Fault GeoIPMatcher := do
  let (pos, m) := m.getOutboundPos outbound
  let ip4 ← normalize p ip4 pre
  return { m with trie4 := ← m.trie4.put p ip4 pre (BitVec.ofNat 32 pos) }

end GeoIPMatcher

/-- A call that adds a rule to a `GeoIPMatcher`. -/
inductive PutCall
  | v4 (ip : BitVec 32) (pre : UInt8) (tag : String)
  | v6 (ip : BitVec 128) (pre : UInt8) (tag : String)
  deriving DecidableEq

namespace GeoIPMatcher

def putCall (p : Profile) (m : GeoIPMatcher) : PutCall → Except Fault GeoIPMatcher
  | .v4 ip pre tag => m.putV4 p ip pre tag
  | .v6 ip pre tag => m.putV6 p ip pre tag

/-- A sequence of puts. -/
def puts (p : Profile) (m : GeoIPMatcher) (calls : List PutCall) : Except Fault GeoIPMatcher :=
  calls.foldlM (putCall p) m

end GeoIPMatcher

end V2ray
