import V2rayRust.Config.IpTrieBounds
import V2rayRust.Config.Routing

/-!
# Prefixes of every width

What becomes of the prefix that a CIDR rule of the configuration asks for, or a CIDR message of a
geoip file. The shift amount is the width of the address less the prefix in `normalize` and in
`put`: `/0` shifts by the whole width, which is an overflow, and without the check a shift by none.
A message has any `u32` for its prefix, and what is put is its last byte. So a request is handled
exactly if its prefix is in `1..=width` (`handled_iff`).
-/

namespace V2ray

open PatriciaTrie GeoIPMatcher

/-- The put of a rule that has been parsed. -/
def IpCidr.put (tag : String) : IpCidr → PutCall
  | v4 ip bits => .v4 ip bits tag
  | v6 ip bits => .v6 ip bits tag

/-- A request for a CIDR: the text of a rule, or a message that has been read. -/
inductive CidrRequest
  | rule (text : String)
  | message (cidr : Cidr)

/-- The addresses that a request asks for: those that begin with the first `pre` bits of `ip`. -/
inductive AskedCidr
  | v4 (ip : BitVec 32) (pre : ℕ)
  | v6 (ip : BitVec 128) (pre : ℕ)
  deriving DecidableEq

namespace AskedCidr

def width : AskedCidr → ℕ
  | v4 .. => 32
  | v6 .. => 128

def pre : AskedCidr → ℕ
  | v4 _ pre => pre
  | v6 _ pre => pre

/-- The put that the code makes of it. -/
def put (tag : String) : AskedCidr → PutCall
  | v4 ip pre => .v4 ip (UInt8.ofNat pre) tag
  | v6 ip pre => .v6 ip (UInt8.ofNat pre) tag

end AskedCidr

namespace CidrRequest

/-- What the request asks for, if it is accepted. -/
def asks (R : RouteWorld) : CidrRequest → Option AskedCidr
  | rule text =>
    if R.isIpCidr text then
      (R.ipCidr text).map fun
        | .v4 ip bits => .v4 ip bits.toNat
        | .v6 ip bits => .v6 ip bits.toNat
    else none
  | message cidr =>
    if cidr.ip.length = 16 then some (.v6 (RouteWorld.getUint 128 cidr.ip) cidr.pre.toNat)
    else if cidr.ip.length = 4 then some (.v4 (RouteWorld.getUint 32 cidr.ip) cidr.pre.toNat)
    else none

/-- The puts that `add_cidr_rules` or `read_geoip_file` make of it. -/
def puts (R : RouteWorld) (tag : String) : CidrRequest → List PutCall
  | rule text => putsOf (R.addCidrRules tag [text]).calls
  | message cidr => putsOf (RouteWorld.putCidr tag cidr).calls

/-- No subtraction and no shift leaves its range, whatever has been put before. -/
def InRange (R : RouteWorld) (tag : String) (req : CidrRequest) : Prop :=
  ∀ c ∈ req.puts R tag, ∀ m : GeoIPMatcher, m.putCall .debug c ≠ .error .overflow

/-- An address that no other rule matches gets the tag. -/
def MatchesRest (tag : String) (others : List PutCall) (m : GeoIPMatcher) : AskedCidr → Prop
  | .v4 _ _ => ∀ a, (∀ r ∈ rules4 others, ¬ r.path <+: msbBits a) →
      ∃ v, m.trie4.get a = .ok (some v) ∧ m.outbound[asUsize v]? = some tag
  | .v6 _ _ => ∀ a, (∀ r ∈ rules6 others, ¬ r.path <+: msbBits a) →
      ∃ v, m.trie6.get a = .ok (some v) ∧ m.outbound[asUsize v]? = some tag

/-- `/0` matches every address that no other rule matches, among any other puts and in any build. -/
def ZeroMatches (R : RouteWorld) (tag : String) (req : CidrRequest) (c : AskedCidr) : Prop :=
  c.pre = 0 → ∀ p before after m,
    GeoIPMatcher.new.puts p (before ++ req.puts R tag ++ after) = .ok m →
      MatchesRest tag (before ++ after) m c

/-- A prefix that is wider than the address is rejected. -/
def RejectsWider (R : RouteWorld) (tag : String) (req : CidrRequest) (c : AskedCidr) : Prop :=
  c.width < c.pre → req.puts R tag = []

/-- A request is handled whatever its prefix. -/
structure Handled (R : RouteWorld) (tag : String) (req : CidrRequest) (c : AskedCidr) : Prop where
  inRange : req.InRange R tag
  zeroMatches : req.ZeroMatches R tag c
  rejectsWider : req.RejectsWider R tag c

variable {R : RouteWorld} {tag : String} {req : CidrRequest} {c : AskedCidr}

theorem calls_addCidrRules {text : String} {cidr : IpCidr} (h : R.isIpCidr text = true)
    (h_parsed : R.ipCidr text = some cidr) :
    (R.addCidrRules tag [text]).calls = [.put (cidr.put tag)] := by
  unfold RouteWorld.addCidrRules
  dsimp only [List.forM_eq_forM, List.forM_cons, List.forM_nil]
  rw [if_pos h, h_parsed]
  cases cidr <;> rfl

/-- One put is made, with the last byte of the prefix. -/
theorem puts_of_asks (h : req.asks R = some c) : req.puts R tag = [c.put tag] := by
  unfold asks at h
  cases req with
  -- a rule has a prefix of one byte, so nothing is cut off it
  | rule text =>
    dsimp only at h
    split at h
    · next h_cidr =>
      obtain ⟨cidr, h_parsed, h⟩ := Option.map_eq_some_iff.mp h
      unfold puts
      dsimp only
      rw [calls_addCidrRules h_cidr h_parsed]
      cases cidr with
      | v4 ip bits =>
        cases h
        exact congrArg (fun bits => [PutCall.v4 ip bits tag]) UInt8.ofNat_toNat.symm
      | v6 ip bits =>
        cases h
        exact congrArg (fun bits => [PutCall.v6 ip bits tag]) UInt8.ofNat_toNat.symm
    · cases h
  | message cidr =>
    -- a message has a prefix of four bytes, and the last of them is put
    unfold puts RouteWorld.putCidr
    dsimp only at h ⊢
    split at h
    · next h_len =>
      cases h
      rw [if_pos h_len]
      rfl
    · next h_not =>
      rw [if_neg h_not]
      split at h
      · next h_len =>
        cases h
        rw [if_pos h_len]
        rfl
      · cases h

end CidrRequest

/-! ### Shifts in their range -/

section InRange

variable {w : ℕ} {t : PatriciaTrie w} {f : Fault}

theorem index_eq_error {α : Type} {xs : List α} {i : ℕ} (h : index xs i = .error f) :
    f = .outOfBounds := by
  unfold index at h
  split at h <;> cases h
  rfl

theorem assign_eq_error {α : Type} {xs : List α} {i : ℕ} {x : α} (h : assign xs i x = .error f) :
    f = .outOfBounds := by
  unfold assign at h
  split at h <;> cases h
  rfl

/-- The walk can only fail at an index. -/
theorem descend_eq_error {key mask bit node nxt : BitVec w} {n : ℕ}
    (h : t.descend key mask n bit node nxt = .error f) : f = .outOfBounds := by
  induction n generalizing bit node nxt with
  | zero => cases h
  | succ n ih =>
    unfold descend at h
    split at h
    · rcases bind_eq_error.mp h with h_next | ⟨nxt', -, h⟩
      · unfold PatriciaTrie.next at h_next
        split at h_next <;> exact index_eq_error h_next
      · split at h
        · cases h
        · exact ih h
    · cases h

/-- So can the loop that adds nodes. -/
theorem extend_eq_error {key mask bit node : BitVec w} {n : ℕ}
    (h : extend key mask n t bit node = .error f) : f = .outOfBounds := by
  induction n generalizing t bit node with
  | zero => cases h
  | succ n ih =>
    unfold extend at h
    split at h
    · rcases bind_eq_error.mp h with h_push | ⟨t', -, h⟩
      · unfold pushChild at h_push
        dsimp only at h_push
        split at h_push
        · rcases bind_eq_error.mp h_push with h_assign | ⟨_, -, h_push⟩
          · exact assign_eq_error h_assign
          · cases h_push
        · rcases bind_eq_error.mp h_push with h_assign | ⟨_, -, h_push⟩
          · exact assign_eq_error h_assign
          · cases h_push
      · exact ih h
    · cases h

/-- What can go wrong in a `put` whose shift is in its range is an index. -/
theorem put_eq_error {p : Profile} {key : BitVec w} {pre : UInt8} {value : BitVec 32}
    (h_pre : 1 ≤ pre.toNat ∧ pre.toNat ≤ w) (h : t.put p key pre value = .error f) :
    f = .outOfBounds := by
  have h_lt : w - pre.toNat < w := by omega
  unfold PatriciaTrie.put at h
  rw [Profile.sub_of_le h_pre.2, ok_bind, Profile.shiftAmount_of_lt h_lt, ok_bind] at h
  rcases bind_eq_error.mp h with h_descend | ⟨⟨bit, node, nxt⟩, -, h⟩
  · exact descend_eq_error h_descend
  · dsimp only at h
    split at h
    · rcases bind_eq_error.mp h with h_assign | ⟨_, -, h⟩
      · exact assign_eq_error h_assign
      · cases h
    · rcases bind_eq_error.mp h with h_extend | ⟨⟨t', node'⟩, -, h⟩
      · exact extend_eq_error h_extend
      · rcases bind_eq_error.mp h with h_assign | ⟨_, -, h⟩
        · exact assign_eq_error h_assign
        · cases h

end InRange

/-- **Shifts in their range**: a put never leaves the range of a shift exactly if it is safe with
overflow checks. -/
theorem putCall_inRange_iff (call : PutCall) :
    (∀ m : GeoIPMatcher, m.putCall .debug call ≠ .error .overflow) ↔ call.Safe .debug := by
  constructor
  · intro h
    by_contra h_safe
    -- the network address is made first, with the same shift
    exact h GeoIPMatcher.new (putCall_overflow _ h_safe).2
  · intro h_safe m h
    cases call with
    | v4 ip pre tag =>
      obtain ⟨ip', h_norm⟩ := normalizeTo_returns ip h_safe
      change (normalizeTo .debug 32 ip pre >>= _) = _ at h
      rw [h_norm, ok_bind] at h
      rcases bind_eq_error.mp h with h_put | ⟨_, -, h⟩
      · cases put_eq_error (h_safe rfl) h_put
      · cases h
    | v6 ip pre tag =>
      obtain ⟨ip', h_norm⟩ := normalizeTo_returns ip h_safe
      change (normalizeTo .debug 128 ip pre >>= _) = _ at h
      rw [h_norm, ok_bind] at h
      rcases bind_eq_error.mp h with h_put | ⟨_, -, h⟩
      · cases put_eq_error (h_safe rfl) h_put
      · cases h

/-! ### A prefix of 0 -/

section Zero

variable {w : ℕ} {t : PatriciaTrie w} {outbound : List String}

theorem msbBits_injective {a b : BitVec w} (h : msbBits a = msbBits b) : a = b := by
  refine BitVec.eq_of_getMsbD_eq fun i h_i => ?_
  have h_bit := congrArg (·[i]?) h
  rw [getElem?_msbBits a h_i, getElem?_msbBits b h_i] at h_bit
  exact Option.some.inj h_bit

/-- A table whose one rule is for a whole address has no answer for another one. -/
theorem get_of_full {r : CidrRule w} (h : Stores t outbound [r]) (hw : 32 ≤ w) (h_len : r.len = w)
    {a : BitVec w} (h_ne : a <<< (w - 32) ≠ r.ip) : t.get a = .ok none := by
  rw [h.valid.get_eq hw, latest_eq_none fun j _ => ?_]
  have h_tag := h.tag_at ((readBits a).take j)
  rw [lastAt_eq_none] at h_tag
  · exact Option.map_eq_none_iff.mp h_tag
  · intro r' h_mem h_path
    cases List.mem_singleton.mp h_mem
    -- the path has all the bits of its address
    have h_full : r.path = msbBits r.ip := by
      unfold CidrRule.path PatriciaTrie.pathOf
      rw [h_len, List.take_of_length_le (length_msbBits _).le]
    rw [h_full] at h_path
    have h_length := congrArg List.length h_path
    rw [length_msbBits, List.length_take, length_readBits] at h_length
    rw [List.take_of_length_le (by rw [length_readBits]; omega)] at h_path
    exact h_ne (msbBits_injective h_path).symm

/-- A run of one put, in a release build. -/
theorem puts_release (call : PutCall) : ∃ m, GeoIPMatcher.new.puts .release [call] = .ok m ∧
    Stores m.trie4 m.outbound ([call].filterMap (PutCall.rule4 (prefixLen 32))) ∧
    Stores m.trie6 m.outbound ([call].filterMap (PutCall.rule6 (prefixLen 128))) := by
  have h_size : 1 + 128 * 1 < 2 ^ 32 := by decide
  have h_fits : RunFits .release (fun m c => Fits4 m c ∧ Fits6 m c) GeoIPMatcher.new [call] :=
    runFits_of_short GeoIPMatcher.valid_new h_size h_size (Nat.one_lt_two_pow (by decide))
  have h_safe : ∀ c ∈ [call], c.Safe .release := by
    intro c _
    cases c <;> exact fun h => (by cases h)
  obtain ⟨m, h_run⟩ := puts_returns GeoIPMatcher.valid_new h_safe
    (h_fits.mono fun _ _ h => h.1.room)
  exact ⟨m, h_run, stores4_of_puts GeoIPMatcher.valid_new (stores_new (by decide))
      (h_fits.mono fun _ _ h => h.1) h_run,
    stores6_of_puts GeoIPMatcher.valid_new (stores_new (by decide))
      (h_fits.mono fun _ _ h => h.2) h_run⟩

end Zero

namespace CidrRequest

variable {R : RouteWorld} {tag : String} {req : CidrRequest} {c : AskedCidr}

theorem inRange_iff (h : req.asks R = some c) :
    req.InRange R tag ↔ 1 ≤ (UInt8.ofNat c.pre).toNat ∧ (UInt8.ofNat c.pre).toNat ≤ c.width := by
  unfold InRange
  rw [puts_of_asks h, List.forall_mem_singleton, putCall_inRange_iff]
  cases c with
  | v4 ip pre => exact ⟨fun h_safe => h_safe rfl, fun h_pre _ => h_pre⟩
  | v6 ip pre => exact ⟨fun h_safe => h_safe rfl, fun h_pre _ => h_pre⟩

theorem exists_shift_ne {w n : ℕ} (h_one : (1 : BitVec w) <<< n ≠ 0) (ip : BitVec w) :
    ∃ a : BitVec w, a <<< n ≠ ip := by
  by_cases h_ip : ip = 0
  · exact ⟨1, h_ip ▸ h_one⟩
  · exact ⟨0, fun h_eq => h_ip (h_eq.symm.trans (BitVec.zero_shiftLeft n))⟩

/-- In a release build `/0` is put as a rule for one address. -/
theorem zeroMatches_iff (h : req.asks R = some c) : req.ZeroMatches R tag c ↔ c.pre ≠ 0 := by
  constructor
  · intro h_zero h_pre
    obtain ⟨m, h_run, h_stores4, h_stores6⟩ := puts_release (c.put tag)
    have h_matches := h_zero h_pre .release [] [] m (by rw [puts_of_asks h]; exact h_run)
    -- the rule is one for all bits of an address, so there are others that nothing matches
    cases c with
    | v4 ip pre =>
      cases h_pre
      obtain ⟨a, h_a⟩ := exists_shift_ne (n := 32 - 32) (by decide) ip
      obtain ⟨v, h_get, -⟩ := h_matches a fun r h_r => (by cases h_r)
      rw [get_of_full h_stores4 (Nat.le_refl 32) rfl h_a] at h_get
      cases h_get
    | v6 ip pre =>
      cases h_pre
      obtain ⟨a, h_a⟩ := exists_shift_ne (n := 128 - 32) (by decide) ip
      obtain ⟨v, h_get, -⟩ := h_matches a fun r h_r => (by cases h_r)
      rw [get_of_full h_stores6 (by decide) rfl h_a] at h_get
      cases h_get
  · exact fun h_pre h_zero => absurd h_zero h_pre

theorem rejectsWider_iff (h : req.asks R = some c) :
    req.RejectsWider R tag c ↔ c.pre ≤ c.width := by
  unfold RejectsWider
  rw [puts_of_asks h]
  exact ⟨fun h_rejects => Nat.le_of_not_lt fun h_lt => List.cons_ne_nil _ _ (h_rejects h_lt),
    fun h_le h_lt => absurd h_le (Nat.not_le_of_lt h_lt)⟩

/-- **Prefixes of every width.** A request is handled whatever its prefix if and only if the prefix
is neither 0 nor wider than the address. -/
theorem handled_iff (h : req.asks R = some c) (tag : String) :
    req.Handled R tag c ↔ 1 ≤ c.pre ∧ c.pre ≤ c.width := by
  have h_width : c.width < 256 := by
    cases c with
    | v4 ip pre => exact (by decide : 32 < 256)
    | v6 ip pre => exact (by decide : 128 < 256)
  have h_byte (h_le : c.pre ≤ c.width) : (UInt8.ofNat c.pre).toNat = c.pre :=
    UInt8.toNat_ofNat_of_lt' (Nat.lt_of_le_of_lt h_le h_width)
  constructor
  · rintro ⟨-, h_zero, h_rejects⟩
    exact ⟨Nat.one_le_iff_ne_zero.mpr ((zeroMatches_iff h).mp h_zero),
      (rejectsWider_iff h).mp h_rejects⟩
  · rintro ⟨h_pos, h_le⟩
    refine ⟨(inRange_iff h).mpr ?_, (zeroMatches_iff h).mpr (Nat.one_le_iff_ne_zero.mp h_pos),
      (rejectsWider_iff h).mpr h_le⟩
    rw [h_byte h_le]
    exact ⟨h_pos, h_le⟩

theorem handled_iff_eight :
    (rule "10.0.0.0/8").Handled .offline "proxy" (.v4 0x0A000000 8) ↔ 1 ≤ 8 ∧ 8 ≤ 32 :=
  handled_iff (R := .offline) (c := .v4 0x0A000000 8) (by decide) "proxy"

/-- `0.0.0.0/0` panics with overflow checks, and without them it is a rule for `0.0.0.0` only; and
the prefix 280 becomes 24. -/
theorem handled_zero :
    GeoIPMatcher.new.putCall .debug (.v4 0 0 "proxy") = .error .overflow ∧
    (∃ m, GeoIPMatcher.new.putCall .release (.v4 0 0 "proxy") = .ok m ∧ m.match4 1 = .ok "") ∧
    (message ⟨[10, 0, 0, 0], 280⟩).puts .offline "proxy" = [.v4 0x0A000000 24 "proxy"] ∧
    ¬ (message ⟨[0, 0, 0, 0], 0⟩).Handled .offline "proxy" (.v4 0 0) ∧
    ¬ (message ⟨[10, 0, 0, 0], 280⟩).Handled .offline "proxy" (.v4 0x0A000000 280) := by
  have h_wide : (message ⟨[10, 0, 0, 0], 280⟩).puts .offline "proxy" =
      [.v4 0x0A000000 24 "proxy"] := by decide
  have h_debug : GeoIPMatcher.new.putCall .debug (.v4 0 0 "proxy") = .error .overflow := by decide
  have h_release : ∃ m, GeoIPMatcher.new.putCall .release (.v4 0 0 "proxy") = .ok m ∧
      m.match4 1 = .ok "" := ⟨_, rfl, by decide⟩
  refine ⟨h_debug, h_release, h_wide, fun h => ?_, fun h => ?_⟩
  · exact h.inRange (.v4 0 0 "proxy") (by decide) GeoIPMatcher.new h_debug
  · have h_none := h.rejectsWider (by decide)
    rw [h_wide] at h_none
    cases h_none

end CidrRequest

end V2ray
