import Mathlib.Data.List.Nodup
import Mathlib.Tactic.Common
import V2rayRust.Config.IpTrieInv

/-!
# What the CIDR matcher decides

A sequence of puts is a list of rules, and the matcher should answer an address with the
tag of its longest-prefix match (`lpm`). `Stores` relates a trie and the tag vector to a
list of rules, `stores_of_puts` carries it along a run, and `Stores.lookup_eq` reads the
answer off it: for IPv4 it is the match of the address, for IPv6, where `get` starts at bit
31 of a 128-bit word, the match of the address shifted left by 96.

A run only keeps the relation while node numbers and tag positions stay below `u32::MAX`,
which no code checks; `Fits` is that condition on the state before a put.
-/

namespace V2ray

/-- A CIDR rule: the first `len` bits of `ip`, and the tag it routes to. -/
structure CidrRule (w : ℕ) where
  ip : BitVec w
  len : ℕ
  tag : String

namespace CidrRule

variable {w : ℕ}

def path (r : CidrRule w) : List Bool := PatriciaTrie.pathOf r.ip r.len

theorem length_path_le (r : CidrRule w) : r.path.length ≤ w :=
  (List.length_take_le' _ _).trans (length_msbBits _).le

/-- The tag of the last rule among those of greatest length that agree with `a`, and the
empty tag if none agrees. -/
def lpm (rs : List (CidrRule w)) (a : BitVec w) : String :=
  ((longestMatch path rs (msbBits a)).map tag).getD ""

end CidrRule

/-- The rule of a put, when `len` is the number of bits that the prefix stands for. -/
def PutCall.rule4 (len : UInt8 → ℕ) : PutCall → Option (CidrRule 32)
  | .v4 ip pre tag => some ⟨ip, len pre, tag⟩
  | .v6 .. => none

def PutCall.rule6 (len : UInt8 → ℕ) : PutCall → Option (CidrRule 128)
  | .v4 .. => none
  | .v6 ip pre tag => some ⟨ip, len pre, tag⟩

/-- The IPv4 rules of a sequence of puts. -/
def rules4 (calls : List PutCall) : List (CidrRule 32) :=
  calls.filterMap (PutCall.rule4 UInt8.toNat)

/-- The IPv6 rules of a sequence of puts. -/
def rules6 (calls : List PutCall) : List (CidrRule 128) :=
  calls.filterMap (PutCall.rule6 UInt8.toNat)

/-- The number of bits that a put with prefix `pre` really compares. For `1..=w` it is
`pre`; for the others a build with overflow checks stops, and one without reduces the shift
amount modulo `w`, so that `/0` compares the whole address. -/
def prefixLen (w : ℕ) (pre : UInt8) : ℕ := w - (w + 256 - pre.toNat) % w

/-! ### Prefixes and shifts -/

section Shift

variable {w : ℕ} {p : Profile} {pre : UInt8}

theorem prefixLen_of_le (hw : w = 32 ∨ w = 128) (h1 : 1 ≤ pre.toNat) (h2 : pre.toNat ≤ w) :
    prefixLen w pre = pre.toNat := by
  unfold prefixLen
  rcases hw with rfl | rfl <;> omega

/-- The shift that `normalize` makes is the one that `put` makes. -/
theorem shift_agree (hw : w = 32 ∨ w = 128) {d s : ℕ} (hd : p.sub 8 w pre.toNat = .ok d)
    (hs : p.shiftAmount w d = .ok s) :
    s = (w + 256 - pre.toNat) % w ∧
      ∃ d', p.sub 64 w pre.toNat = .ok d' ∧ p.shiftAmount w d' = .ok s := by
  have h_lt := pre.toNat_lt
  by_cases hle : pre.toNat ≤ w
  · rw [Profile.sub_of_le hle] at hd
    cases hd
    have h_s : s = (w + 256 - pre.toNat) % w := by
      -- a shift by the whole width is an overflow: a panic, or a shift by none
      unfold Profile.shiftAmount at hs
      split at hs
      · cases hs
        rcases hw with rfl | rfl <;> omega
      · cases p with
        | debug => cases hs
        | release => cases hs; rcases hw with rfl | rfl <;> omega
    exact ⟨h_s, _, Profile.sub_of_le hle, hs⟩
  · unfold Profile.sub at hd ⊢
    rw [if_neg hle] at hd ⊢
    -- the prefix is too long, and the difference wraps; in a debug build that is a panic
    cases p with
    | debug => cases hd
    | release =>
      cases hd
      unfold Profile.shiftAmount at hs ⊢
      have h_s : s = (w + 256 - pre.toNat) % w := by
        split at hs
        · cases hs
          rcases hw with rfl | rfl <;> omega
        · cases hs
          rcases hw with rfl | rfl <;> omega
      refine ⟨h_s, _, rfl, ?_⟩
      have h_ge : ¬ (w + 2 ^ 64 - pre.toNat) % 2 ^ 64 < w := by rcases hw with rfl | rfl <;> omega
      rw [if_neg h_ge, h_s]
      exact congrArg Except.ok (by rcases hw with rfl | rfl <;> omega)

/-- Clearing the low bits of an address leaves its path. -/
theorem pathOf_normalized (ip : BitVec w) (s : ℕ) :
    PatriciaTrie.pathOf (ip >>> s <<< s) (w - s) = PatriciaTrie.pathOf ip (w - s) := by
  unfold PatriciaTrie.pathOf msbBits
  rw [← List.map_take, ← List.map_take]
  refine List.map_congr_left fun i hi => ?_
  rw [List.take_range, List.mem_range] at hi
  have h_i : i < w - s := lt_of_lt_of_le hi (min_le_left _ _)
  rw [BitVec.getMsbD_eq_getLsbD, BitVec.getMsbD_eq_getLsbD, BitVec.getLsbD_shiftLeft,
    BitVec.getLsbD_ushiftRight]
  have h_idx : s + (w - 1 - i - s) = w - 1 - i := by omega
  have h_lt : w - 1 - i < w := by omega
  have h_ge : ¬ w - 1 - i < s := by omega
  rw [h_idx, decide_eq_true h_lt, decide_eq_false h_ge]
  rfl

/-- **A normalised put.** -/
theorem PatriciaTrie.Valid.put_normalized (hw : w = 32 ∨ w = 128) {t : PatriciaTrie w}
    (ht : t.Valid) {ip ip' : BitVec w} (h : normalizeTo p w ip pre = .ok ip') (v : BitVec 32)
    (hcap : t.size + t.missing (pathOf ip (prefixLen w pre)) ≤ capacity w) :
    t.put p ip' pre v = .ok (t.putAt (pathOf ip (prefixLen w pre)) v) := by
  unfold normalizeTo at h
  obtain ⟨d, hd, h⟩ := bind_eq_ok.mp h
  obtain ⟨s, hs, h⟩ := bind_eq_ok.mp h
  cases h
  obtain ⟨h_s, d', hd', hs'⟩ := shift_agree hw hd hs
  have h_pos : 0 < w := by rcases hw with rfl | rfl <;> decide
  have h_sw : s < w := h_s ▸ Nat.mod_lt _ h_pos
  have h_len : prefixLen w pre = w - s := by rw [h_s]; rfl
  rw [h_len, ← pathOf_normalized] at hcap ⊢
  exact ht.put_eq hd' hs' h_sw _ v hcap

/-- The shift by the width less the prefix, with a subtraction of `k` bits. -/
theorem shift_returns (k : ℕ) (h : p = .debug → 1 ≤ pre.toNat ∧ pre.toNat ≤ w) :
    ∃ d s, p.sub k w pre.toNat = .ok d ∧ p.shiftAmount w d = .ok s := by
  cases p with
  | debug =>
    obtain ⟨h1, h2⟩ := h rfl
    have h_lt : w - pre.toNat < w := by omega
    exact ⟨_, _, Profile.sub_of_le h2, Profile.shiftAmount_of_lt h_lt⟩
  | release =>
    -- nothing is checked, so every prefix gives some amount
    have h_sub : ∃ d, Profile.release.sub k w pre.toNat = .ok d := by
      unfold Profile.sub
      split <;> exact ⟨_, rfl⟩
    obtain ⟨d, h_sub⟩ := h_sub
    refine ⟨d, ?_⟩
    unfold Profile.shiftAmount
    split <;> exact ⟨_, h_sub, rfl⟩

/-- `normalize` stops only where an overflow check fails. -/
theorem normalizeTo_returns (ip : BitVec w) (h : p = .debug → 1 ≤ pre.toNat ∧ pre.toNat ≤ w) :
    ∃ ip', normalizeTo p w ip pre = .ok ip' := by
  obtain ⟨d, s, h_sub, h_amount⟩ := shift_returns 8 h
  unfold normalizeTo
  rw [h_sub, ok_bind, h_amount]
  exact ⟨_, rfl⟩

/-- With overflow checks `normalize` stops at a prefix that is not in `1..=w`. -/
theorem normalizeTo_debug {ip : BitVec w} {pre : UInt8} (h : ¬ (1 ≤ pre.toNat ∧ pre.toNat ≤ w)) :
    normalizeTo .debug w ip pre = .error .overflow := by
  unfold normalizeTo
  by_cases h_le : pre.toNat ≤ w
  · have h_ge : ¬ w - pre.toNat < w := by omega
    rw [Profile.sub_of_le h_le, ok_bind]
    unfold Profile.shiftAmount
    rw [if_neg h_ge, error_bind]
  · unfold Profile.sub
    rw [if_neg h_le, error_bind]

end Shift

/-! ### The tag vector -/

namespace GeoIPMatcher

/-- The tag is at the position that is returned for it. -/
theorem outbound_getOutboundPos (m : GeoIPMatcher) (tag : String) :
    (m.getOutboundPos tag).2.outbound[(m.getOutboundPos tag).1]? = some tag := by
  unfold getOutboundPos
  cases h : m.outbound.findIdx? (· == tag) with
  | some i =>
    obtain ⟨h_lt, h_eq, _⟩ := List.findIdx?_eq_some_iff_getElem.mp h
    rw [List.getElem?_eq_getElem h_lt]
    exact congrArg some (by simpa using h_eq)
  | none => exact List.getElem?_concat_length

theorem prefix_getOutboundPos (m : GeoIPMatcher) (tag : String) :
    m.outbound <+: (m.getOutboundPos tag).2.outbound := by
  unfold getOutboundPos
  cases m.outbound.findIdx? (· == tag) with
  | some i => exact List.prefix_refl _
  | none => exact List.prefix_append _ _

@[simp] theorem trie4_getOutboundPos (m : GeoIPMatcher) (tag : String) :
    (m.getOutboundPos tag).2.trie4 = m.trie4 := by
  unfold getOutboundPos
  cases m.outbound.findIdx? (· == tag) <;> rfl

@[simp] theorem trie6_getOutboundPos (m : GeoIPMatcher) (tag : String) :
    (m.getOutboundPos tag).2.trie6 = m.trie6 := by
  unfold getOutboundPos
  cases m.outbound.findIdx? (· == tag) <;> rfl

theorem getOutboundPos_le (m : GeoIPMatcher) (tag : String) :
    (m.getOutboundPos tag).1 ≤ m.outbound.length := by
  unfold getOutboundPos
  cases h : m.outbound.findIdx? (· == tag) with
  | some i =>
    obtain ⟨h_lt, _⟩ := List.findIdx?_eq_some_iff_getElem.mp h
    exact Nat.le_of_lt h_lt
  | none => exact Nat.le_refl _

end GeoIPMatcher

/-! ### Tries and rules -/

section Stores

open PatriciaTrie

variable {w : ℕ} {t : PatriciaTrie w} {outbound : List String} {rs : List (CidrRule w)}

/-- The trie answers with the tags of `rs`: at each path it holds a position of the tag of
the last rule with that path, and nothing where there is none. -/
structure Stores (t : PatriciaTrie w) (outbound : List String) (rs : List (CidrRule w)) :
    Prop where
  valid : t.Valid
  tag_at : ∀ q, (t.stored q).map (fun v => outbound[asUsize v]?) =
    (lastAt CidrRule.path rs q).map fun r => some r.tag

theorem stores_new (hw : 0 < w) : Stores (new : PatriciaTrie w) [] [] where
  valid := valid_new hw
  tag_at q := by
    rw [stored_new, lastAt_nil]
    rfl

/-- More tags at the end of the vector change nothing. -/
theorem Stores.of_prefix (h : Stores t outbound rs) {outbound' : List String}
    (hpre : outbound <+: outbound') : Stores t outbound' rs where
  valid := h.valid
  tag_at q := by
    have h_tag := h.tag_at q
    cases hs : t.stored q with
    | none => rw [hs] at h_tag; exact h_tag
    | some v =>
      cases hr : lastAt CidrRule.path rs q with
      | none => rw [hs, hr] at h_tag; cases h_tag
      | some r =>
        rw [hs, hr] at h_tag
        have h_get : outbound[asUsize v]? = some r.tag := Option.some.inj h_tag
        obtain ⟨more, rfl⟩ := hpre
        refine congrArg some ?_
        dsimp only
        rw [List.getElem?_append_left (List.getElem?_eq_some_iff.mp h_get).1]
        exact h_get

/-- **Step lemma.** Setting the value at the path of `r` to a position of its tag adds the
rule, as long as the position is not `u32::MAX`. -/
theorem Stores.putAt (h : Stores t outbound rs) (r : CidrRule w) {i : ℕ}
    (hi : i < 2 ^ 32 - 1) (htag : outbound[i]? = some r.tag)
    (hcap : t.size + t.missing r.path ≤ capacity w) :
    Stores (t.putAt r.path (BitVec.ofNat 32 i)) outbound (rs ++ [r]) where
  valid := h.valid.putAt r.length_path_le hcap _
  tag_at q := by
    -- the position is a value, and not the mark of an empty node
    have h_ne : BitVec.ofNat 32 i ≠ nullptr 32 := by
      intro heq
      have h_nat := congrArg BitVec.toNat heq
      rw [nullptr, BitVec.toNat_ofNat, BitVec.toNat_allOnes] at h_nat
      omega
    have h_pos : asUsize (BitVec.ofNat 32 i) = i := by
      unfold asUsize
      rw [BitVec.toNat_ofNat]
      omega
    rw [h.valid.stored_putAt r.length_path_le hcap,
      lastAt_concat, if_neg h_ne]
    by_cases hq : r.path = q
    · rw [if_pos hq, if_pos hq, Option.map_some, Option.map_some, h_pos, htag]
    · rw [if_neg hq, if_neg hq]
      exact h.tag_at q

/-- **What a lookup answers**: the longest-prefix match of the bits that `get` reads. -/
theorem Stores.lookup_eq (h : Stores t outbound rs) (hw : 32 ≤ w) (key : BitVec w) :
    (do match ← t.get key with
        | some c => index outbound (asUsize c)
        | none => return "") = .ok (CidrRule.lpm rs (key <<< (w - 32))) := by
  -- the walk reads the entries on the path, and each is the tag of the last rule that ends there
  have h_latest : (latest (fun j => t.stored ((readBits key).take j)) (w + 1)).map
      (fun v => outbound[asUsize v]?) =
      (longestMatch CidrRule.path rs (readBits key)).map fun r => some r.tag := by
    rw [longestMatch_eq_latest, length_readBits, ← latest_map, ← latest_map]
    exact congrArg (latest · (w + 1)) (funext fun j => h.tag_at _)
  unfold CidrRule.lpm
  rw [h.valid.get_eq hw, ok_bind]
  change _ = Except.ok (((longestMatch CidrRule.path rs (readBits key)).map CidrRule.tag).getD "")
  cases hl : latest (fun j => t.stored ((readBits key).take j)) (w + 1) with
  | none =>
    rw [hl] at h_latest
    cases hm : longestMatch CidrRule.path rs (readBits key) with
    | none => rfl
    | some r => rw [hm] at h_latest; cases h_latest
  | some v =>
    rw [hl] at h_latest
    cases hm : longestMatch CidrRule.path rs (readBits key) with
    | none => rw [hm] at h_latest; cases h_latest
    | some r =>
      rw [hm] at h_latest
      exact index_of_getElem? (Option.some.inj h_latest)

end Stores

/-! ### Runs of puts -/

section Runs

open PatriciaTrie GeoIPMatcher

variable {p : Profile} {m m' : GeoIPMatcher}

/-- A put that does not stop: the prefix is in range, or shift amounts are not checked. -/
def PutCall.Safe (p : Profile) : PutCall → Prop
  | .v4 _ pre _ => p = .debug → 1 ≤ pre.toNat ∧ pre.toNat ≤ 32
  | .v6 _ pre _ => p = .debug → 1 ≤ pre.toNat ∧ pre.toNat ≤ 128

/-- An IPv4 put has its prefix in `1..=32`. -/
def PutCall.Proper4 : PutCall → Prop
  | .v4 _ pre _ => 1 ≤ pre.toNat ∧ pre.toNat ≤ 32
  | .v6 .. => True

/-- An IPv6 put has its prefix in `1..=128`. -/
def PutCall.Proper6 : PutCall → Prop
  | .v4 .. => True
  | .v6 _ pre _ => 1 ≤ pre.toNat ∧ pre.toNat ≤ 128

instance (p : Profile) : (c : PutCall) → Decidable (c.Safe p)
  | .v4 _ pre _ => inferInstanceAs (Decidable (p = .debug → 1 ≤ pre.toNat ∧ pre.toNat ≤ 32))
  | .v6 _ pre _ => inferInstanceAs (Decidable (p = .debug → 1 ≤ pre.toNat ∧ pre.toNat ≤ 128))

instance : (c : PutCall) → Decidable c.Proper4
  | .v4 _ pre _ => inferInstanceAs (Decidable (1 ≤ pre.toNat ∧ pre.toNat ≤ 32))
  | .v6 .. => inferInstanceAs (Decidable True)

instance : (c : PutCall) → Decidable c.Proper6
  | .v4 .. => inferInstanceAs (Decidable True)
  | .v6 _ pre _ => inferInstanceAs (Decidable (1 ≤ pre.toNat ∧ pre.toNat ≤ 128))

/-- There are numbers left for the nodes that a put adds. -/
def Room (m : GeoIPMatcher) : PutCall → Prop
  | .v4 ip pre _ =>
    m.trie4.size + m.trie4.missing (pathOf ip (prefixLen 32 pre)) ≤ capacity 32
  | .v6 ip pre _ =>
    m.trie6.size + m.trie6.missing (pathOf ip (prefixLen 128 pre)) ≤ capacity 128

/-- The position of `tag` is a `u32` other than `u32::MAX`. -/
def TagRoom (m : GeoIPMatcher) (tag : String) : Prop := (m.getOutboundPos tag).1 < 2 ^ 32 - 1

/-- What an IPv4 table asks of the state before a put. -/
def Fits4 (m : GeoIPMatcher) : PutCall → Prop
  | .v4 ip pre tag => Room m (.v4 ip pre tag) ∧ TagRoom m tag
  | .v6 ip pre tag => Room m (.v6 ip pre tag)

/-- What an IPv6 table asks of the state before a put. -/
def Fits6 (m : GeoIPMatcher) : PutCall → Prop
  | .v4 ip pre tag => Room m (.v4 ip pre tag)
  | .v6 ip pre tag => Room m (.v6 ip pre tag) ∧ TagRoom m tag

/-- `fits` holds before every put of a run from `m`. -/
def RunFits (p : Profile) (fits : GeoIPMatcher → PutCall → Prop) :
    GeoIPMatcher → List PutCall → Prop
  | _, [] => True
  | m, c :: cs => fits m c ∧ ∀ m', m.putCall p c = .ok m' → RunFits p fits m' cs

theorem RunFits.mono {fits fits' : GeoIPMatcher → PutCall → Prop}
    (h : ∀ m c, fits m c → fits' m c) {calls : List PutCall} (hr : RunFits p fits m calls) :
    RunFits p fits' m calls := by
  induction calls generalizing m with
  | nil => trivial
  | cons c cs ih => exact ⟨h m c hr.1, fun m' hm' => ih (hr.2 m' hm')⟩

theorem Fits4.room {c : PutCall} (h : Fits4 m c) : Room m c := by
  cases c with
  | v4 ip pre tag => exact h.1
  | v6 ip pre tag => exact h

theorem Fits6.room {c : PutCall} (h : Fits6 m c) : Room m c := by
  cases c with
  | v4 ip pre tag => exact h
  | v6 ip pre tag => exact h.1

theorem puts_cons (m : GeoIPMatcher) (c : PutCall) (cs : List PutCall) :
    m.puts p (c :: cs) = m.putCall p c >>= fun m' => m'.puts p cs := rfl

/-! #### One put -/

/-- The matcher after an IPv4 put. -/
def afterV4 (m : GeoIPMatcher) (ip : BitVec 32) (pre : UInt8) (tag : String) : GeoIPMatcher :=
  { (m.getOutboundPos tag).2 with
    trie4 := m.trie4.putAt (pathOf ip (prefixLen 32 pre))
      (BitVec.ofNat 32 (m.getOutboundPos tag).1) }

/-- The matcher after an IPv6 put. -/
def afterV6 (m : GeoIPMatcher) (ip : BitVec 128) (pre : UInt8) (tag : String) : GeoIPMatcher :=
  { (m.getOutboundPos tag).2 with
    trie6 := m.trie6.putAt (pathOf ip (prefixLen 128 pre))
      (BitVec.ofNat 32 (m.getOutboundPos tag).1) }

/-- Both tries satisfy their invariant. -/
structure GeoIPMatcher.Valid (m : GeoIPMatcher) : Prop where
  trie4 : m.trie4.Valid
  trie6 : m.trie6.Valid

theorem GeoIPMatcher.valid_new : GeoIPMatcher.new.Valid :=
  ⟨PatriciaTrie.valid_new (by decide), PatriciaTrie.valid_new (by decide)⟩

/-- The matcher after a put that finds room. -/
def after (m : GeoIPMatcher) : PutCall → GeoIPMatcher
  | .v4 ip pre tag => afterV4 m ip pre tag
  | .v6 ip pre tag => afterV6 m ip pre tag

theorem length_pathOf_prefixLen {w : ℕ} (ip : BitVec w) (pre : UInt8) :
    (pathOf ip (prefixLen w pre)).length ≤ w :=
  (length_pathOf ip (Nat.sub_le _ _)).trans_le (Nat.sub_le _ _)

/-- An IPv4 put with room goes through whenever its arithmetic does. -/
theorem putV4_eq (hv : m.Valid) {ip ip' : BitVec 32} {pre : UInt8} {tag : String}
    (h_norm : normalizeTo p 32 ip pre = .ok ip') (hroom : Room m (.v4 ip pre tag)) :
    m.putCall p (.v4 ip pre tag) = .ok (afterV4 m ip pre tag) := by
  unfold putCall putV4 normalize
  dsimp only
  rw [trie4_getOutboundPos, h_norm, ok_bind,
    hv.trie4.put_normalized (Or.inl rfl) h_norm _ hroom]
  rfl

/-- An IPv6 put with room goes through whenever its arithmetic does. -/
theorem putV6_eq (hv : m.Valid) {ip ip' : BitVec 128} {pre : UInt8} {tag : String}
    (h_norm : normalizeTo p 128 ip pre = .ok ip') (hroom : Room m (.v6 ip pre tag)) :
    m.putCall p (.v6 ip pre tag) = .ok (afterV6 m ip pre tag) := by
  unfold putCall putV6 normalize6
  dsimp only
  rw [trie6_getOutboundPos, h_norm, ok_bind,
    hv.trie6.put_normalized (Or.inr rfl) h_norm _ hroom]
  rfl

/-- A put that returned made the step `after`. -/
theorem eq_after (hv : m.Valid) {c : PutCall} (hroom : Room m c)
    (h : m.putCall p c = .ok m') : m' = after m c := by
  cases c with
  | v4 ip pre tag =>
    obtain ⟨ip', h_norm, _⟩ := bind_eq_ok.mp h
    rw [putV4_eq hv h_norm hroom] at h
    exact (Except.ok.inj h).symm
  | v6 ip pre tag =>
    obtain ⟨ip', h_norm, _⟩ := bind_eq_ok.mp h
    rw [putV6_eq hv h_norm hroom] at h
    exact (Except.ok.inj h).symm

/-- A safe put with room returns. -/
theorem putCall_safe (hv : m.Valid) {c : PutCall} (hroom : Room m c) (hsafe : c.Safe p) :
    m.putCall p c = .ok (after m c) := by
  cases c with
  | v4 ip pre tag =>
    obtain ⟨ip', h_norm⟩ := normalizeTo_returns ip hsafe
    exact putV4_eq hv h_norm hroom
  | v6 ip pre tag =>
    obtain ⟨ip', h_norm⟩ := normalizeTo_returns ip hsafe
    exact putV6_eq hv h_norm hroom

/-- A put with room leaves a valid matcher. -/
theorem valid_after (hv : m.Valid) {c : PutCall} (hroom : Room m c) : (after m c).Valid := by
  cases c with
  | v4 ip pre tag =>
    refine ⟨hv.trie4.putAt (length_pathOf_prefixLen ip pre) hroom _, ?_⟩
    exact (trie6_getOutboundPos m tag).symm ▸ hv.trie6
  | v6 ip pre tag =>
    refine ⟨?_, hv.trie6.putAt (length_pathOf_prefixLen ip pre) hroom _⟩
    exact (trie4_getOutboundPos m tag).symm ▸ hv.trie4

/-- **A run of safe puts that find room returns.** -/
theorem puts_returns {calls : List PutCall} (hv : m.Valid) (hsafe : ∀ c ∈ calls, c.Safe p)
    (hroom : RunFits p Room m calls) : ∃ m', m.puts p calls = .ok m' := by
  induction calls generalizing m with
  | nil => exact ⟨m, rfl⟩
  | cons c cs ih =>
    have h_step := putCall_safe hv hroom.1 (hsafe c List.mem_cons_self)
    rw [puts_cons, h_step, ok_bind]
    exact ih (valid_after hv hroom.1) (fun d hd => hsafe d (List.mem_cons_of_mem c hd))
      (hroom.2 _ h_step)

/-! #### The tables along a run -/

/-- The IPv4 table after one put. -/
theorem stores4_after {rs : List (CidrRule 32)} (hs : Stores m.trie4 m.outbound rs)
    {c : PutCall} (hfit : Fits4 m c) :
    Stores (after m c).trie4 (after m c).outbound
      (rs ++ (c.rule4 (prefixLen 32)).toList) := by
  cases c with
  | v4 ip pre tag =>
    exact (hs.of_prefix (prefix_getOutboundPos m tag)).putAt ⟨ip, prefixLen 32 pre, tag⟩ hfit.2
      (outbound_getOutboundPos m tag) hfit.1
  | v6 ip pre tag =>
    have h_same : (after m (.v6 ip pre tag)).trie4 = m.trie4 := trie4_getOutboundPos m tag
    rw [h_same]
    exact (List.append_nil rs).symm ▸ hs.of_prefix (prefix_getOutboundPos m tag)

/-- The IPv6 table after one put. -/
theorem stores6_after {rs : List (CidrRule 128)} (hs : Stores m.trie6 m.outbound rs)
    {c : PutCall} (hfit : Fits6 m c) :
    Stores (after m c).trie6 (after m c).outbound
      (rs ++ (c.rule6 (prefixLen 128)).toList) := by
  cases c with
  | v4 ip pre tag =>
    have h_same : (after m (.v4 ip pre tag)).trie6 = m.trie6 := trie6_getOutboundPos m tag
    rw [h_same]
    exact (List.append_nil rs).symm ▸ hs.of_prefix (prefix_getOutboundPos m tag)
  | v6 ip pre tag =>
    exact (hs.of_prefix (prefix_getOutboundPos m tag)).putAt ⟨ip, prefixLen 128 pre, tag⟩ hfit.2
      (outbound_getOutboundPos m tag) hfit.1

theorem filterMap_cons_append {α β : Type} (f : α → Option β) (a : α) (as : List α)
    (bs : List β) : bs ++ (a :: as).filterMap f = bs ++ (f a).toList ++ as.filterMap f := by
  rw [List.filterMap_cons]
  cases f a with
  | none => rw [Option.toList_none, List.append_nil]
  | some b => rw [Option.toList_some, List.append_assoc]; rfl

/-- **Run lemma, IPv4.** -/
theorem stores4_of_puts {calls : List PutCall} {rs : List (CidrRule 32)} (hv : m.Valid)
    (hs : Stores m.trie4 m.outbound rs) (hfit : RunFits p Fits4 m calls)
    (h : m.puts p calls = .ok m') :
    Stores m'.trie4 m'.outbound (rs ++ calls.filterMap (PutCall.rule4 (prefixLen 32))) := by
  induction calls generalizing m rs with
  | nil =>
    obtain rfl : m = m' := Except.ok.inj h
    rw [List.filterMap_nil, List.append_nil]
    exact hs
  | cons c cs ih =>
    rw [puts_cons] at h
    obtain ⟨m₁, h_step, h⟩ := bind_eq_ok.mp h
    have h_fits := hfit.2 m₁ h_step
    obtain rfl := eq_after hv hfit.1.room h_step
    rw [filterMap_cons_append]
    exact ih (valid_after hv hfit.1.room) (stores4_after hs hfit.1) h_fits h

/-- **Run lemma, IPv6.** -/
theorem stores6_of_puts {calls : List PutCall} {rs : List (CidrRule 128)} (hv : m.Valid)
    (hs : Stores m.trie6 m.outbound rs) (hfit : RunFits p Fits6 m calls)
    (h : m.puts p calls = .ok m') :
    Stores m'.trie6 m'.outbound (rs ++ calls.filterMap (PutCall.rule6 (prefixLen 128))) := by
  induction calls generalizing m rs with
  | nil =>
    obtain rfl : m = m' := Except.ok.inj h
    rw [List.filterMap_nil, List.append_nil]
    exact hs
  | cons c cs ih =>
    rw [puts_cons] at h
    obtain ⟨m₁, h_step, h⟩ := bind_eq_ok.mp h
    have h_fits := hfit.2 m₁ h_step
    obtain rfl := eq_after hv hfit.1.room h_step
    rw [filterMap_cons_append]
    exact ih (valid_after hv hfit.1.room) (stores6_after hs hfit.1) h_fits h

theorem filterMap_rule4 {calls : List PutCall} (h : ∀ c ∈ calls, c.Proper4) :
    calls.filterMap (PutCall.rule4 (prefixLen 32)) = rules4 calls := by
  refine List.filterMap_congr fun c hc => ?_
  cases c with
  | v4 ip pre tag =>
    obtain ⟨h1, h2⟩ := h _ hc
    exact congrArg (fun n => some (⟨ip, n, tag⟩ : CidrRule 32)) (prefixLen_of_le (Or.inl rfl) h1 h2)
  | v6 ip pre tag => rfl

theorem filterMap_rule6 {calls : List PutCall} (h : ∀ c ∈ calls, c.Proper6) :
    calls.filterMap (PutCall.rule6 (prefixLen 128)) = rules6 calls := by
  refine List.filterMap_congr fun c hc => ?_
  cases c with
  | v4 ip pre tag => rfl
  | v6 ip pre tag =>
    obtain ⟨h1, h2⟩ := h _ hc
    exact congrArg (fun n => some (⟨ip, n, tag⟩ : CidrRule 128))
      (prefixLen_of_le (Or.inr rfl) h1 h2)

/-! #### Short runs find room -/

/-- A put makes at most 128 nodes in the trie for IPv4. -/
theorem size4_after (hv : m.Valid) {c : PutCall} (hroom : Room m c) :
    (after m c).trie4.size ≤ m.trie4.size + 128 := by
  cases c with
  | v4 ip pre tag =>
    have h_len := length_pathOf_prefixLen ip pre
    have h_miss := m.trie4.missing_le (pathOf ip (prefixLen 32 pre))
    exact (hv.trie4.size_putAt h_len hroom _).trans_le (by omega)
  | v6 ip pre tag =>
    have h_same : (after m (.v6 ip pre tag)).trie4 = m.trie4 := trie4_getOutboundPos m tag
    rw [h_same]
    exact Nat.le_add_right _ _

/-- A put makes at most 128 nodes in the trie for IPv6. -/
theorem size6_after (hv : m.Valid) {c : PutCall} (hroom : Room m c) :
    (after m c).trie6.size ≤ m.trie6.size + 128 := by
  cases c with
  | v4 ip pre tag =>
    have h_same : (after m (.v4 ip pre tag)).trie6 = m.trie6 := trie6_getOutboundPos m tag
    rw [h_same]
    exact Nat.le_add_right _ _
  | v6 ip pre tag =>
    have h_len := length_pathOf_prefixLen ip pre
    have h_miss := m.trie6.missing_le (pathOf ip (prefixLen 128 pre))
    exact (hv.trie6.size_putAt h_len hroom _).trans_le (by omega)

theorem length_outbound_after (m : GeoIPMatcher) (c : PutCall) :
    (after m c).outbound.length ≤ m.outbound.length + 1 := by
  have h_pos : ∀ tag, (m.getOutboundPos tag).2.outbound.length ≤ m.outbound.length + 1 := by
    intro tag
    unfold getOutboundPos
    cases m.outbound.findIdx? (· == tag) with
    | some i => exact Nat.le_succ _
    | none => exact (List.length_append).le
  cases c with
  | v4 ip pre tag => exact h_pos tag
  | v6 ip pre tag => exact h_pos tag

/-- A run of fewer than `2 ^ 25 - 1` puts finds room. -/
theorem runFits_of_short {calls : List PutCall} (hv : m.Valid)
    (h4 : m.trie4.size + 128 * calls.length < 2 ^ 32)
    (h6 : m.trie6.size + 128 * calls.length < 2 ^ 32)
    (ho : m.outbound.length + calls.length < 2 ^ 32) :
    RunFits p (fun m c => Fits4 m c ∧ Fits6 m c) m calls := by
  induction calls generalizing m with
  | nil => trivial
  | cons c cs ih =>
    rw [List.length_cons] at h4 h6 ho
    -- a tag takes at most one entry, and a put at most as many nodes as the address has bits
    have h_tag : ∀ tag, TagRoom m tag := fun tag =>
      lt_of_le_of_lt (m.getOutboundPos_le tag) (by omega)
    have h_room : Room m c := by
      cases c with
      | v4 ip pre tag =>
        have h_len := length_pathOf_prefixLen ip pre
        have h_miss := m.trie4.missing_le (pathOf ip (prefixLen 32 pre))
        exact le_min (by omega) (by omega)
      | v6 ip pre tag =>
        have h_len := length_pathOf_prefixLen ip pre
        have h_miss := m.trie6.missing_le (pathOf ip (prefixLen 128 pre))
        exact le_min (by omega) (by omega)
    refine ⟨?_, fun m' h_step => ?_⟩
    · cases c with
      | v4 ip pre tag => exact ⟨⟨h_room, h_tag tag⟩, h_room⟩
      | v6 ip pre tag => exact ⟨h_room, h_room, h_tag tag⟩
    · obtain rfl := eq_after hv h_room h_step
      have h_s4 := size4_after hv h_room
      have h_s6 := size6_after hv h_room
      have h_o := length_outbound_after m c
      exact ih (valid_after hv h_room) (by omega) (by omega) (by omega)

/-! ### The answers -/

/-- The answer for an IPv4 address, prefixes of any length. -/
theorem match4_of_stores {rs : List (CidrRule 32)} (hs : Stores m.trie4 m.outbound rs)
    (a : BitVec 32) : m.match4 a = .ok (CidrRule.lpm rs a) := by
  have h_lookup := hs.lookup_eq (Nat.le_refl 32) a
  rwa [Nat.sub_self, BitVec.shiftLeft_zero] at h_lookup

/-- The answer for an IPv6 address is that of its low 32 bits, moved to the front. -/
theorem match6_of_stores {rs : List (CidrRule 128)} (hs : Stores m.trie6 m.outbound rs)
    (a : BitVec 128) : m.match6 a = .ok (CidrRule.lpm rs (a <<< 96)) :=
  hs.lookup_eq (by decide) a

/-- **IPv4 longest-prefix match.** A run of puts in which every put finds room ends in a
matcher that answers every address with its longest-prefix match. -/
theorem match4_eq_lpm (p : Profile) (calls : List PutCall)
    (h_safe : ∀ c ∈ calls, c.Safe p ∧ c.Proper4) (h_fit : RunFits p Fits4 GeoIPMatcher.new calls) :
    ∃ m, GeoIPMatcher.new.puts p calls = .ok m ∧
      ∀ a, m.match4 a = .ok (CidrRule.lpm (rules4 calls) a) := by
  obtain ⟨m, h_run⟩ := puts_returns GeoIPMatcher.valid_new (fun c hc => (h_safe c hc).1)
    (h_fit.mono fun _ _ h => h.room)
  have h_stores := stores4_of_puts GeoIPMatcher.valid_new (stores_new (by decide)) h_fit h_run
  rw [List.nil_append, filterMap_rule4 fun c hc => (h_safe c hc).2] at h_stores
  exact ⟨m, h_run, match4_of_stores h_stores⟩

/-- Two nested IPv4 rules with an IPv6 rule between them. -/
def nestedPuts : List PutCall :=
  [.v4 0x0A000000 8 "direct", .v6 0 32 "direct", .v4 0x0A000300 24 "block"]

theorem match4_eq_lpm_nested : ∃ m, GeoIPMatcher.new.puts .debug nestedPuts = .ok m ∧
    ∀ a, m.match4 a = .ok (CidrRule.lpm (rules4 nestedPuts) a) :=
  match4_eq_lpm .debug nestedPuts (by decide)
    ((runFits_of_short GeoIPMatcher.valid_new (by decide) (by decide) (by decide)).mono
      fun _ _ h => h.1)

/-! #### One tag too many -/

/-- `n` puts of one address, each with a tag of its own. -/
def crowd (n : ℕ) : List PutCall := (List.range n).map fun k => .v4 0 32 (Nat.repr k)

theorem crowd_succ (n : ℕ) : crowd (n + 1) = crowd n ++ [.v4 0 32 (Nat.repr n)] := by
  unfold crowd
  rw [List.range_succ, List.map_append]
  rfl

theorem puts_concat (m : GeoIPMatcher) (cs : List PutCall) (c : PutCall) :
    m.puts p (cs ++ [c]) = m.puts p cs >>= fun m' => m'.putCall p c := by
  unfold puts
  rw [List.foldlM_append]
  exact bind_congr fun m' => bind_pure _

/-- The state after `n` of these puts, `n` below `u32::MAX`. -/
structure Crowded (n : ℕ) (m : GeoIPMatcher) : Prop where
  run : GeoIPMatcher.new.puts .debug (crowd n) = .ok m
  valid : m.Valid
  outbound_eq : m.outbound = (List.range n).map Nat.repr
  size_le : m.trie4.size + m.trie4.missing (pathOf (0 : BitVec 32) 32) ≤ 33
  stores : Stores m.trie4 m.outbound (rules4 (crowd n))

/-- A new tag goes to the end of the vector. -/
theorem Crowded.getOutboundPos_eq {n : ℕ} (h : Crowded n m) :
    m.getOutboundPos (Nat.repr n) =
      (n, { m with outbound := m.outbound ++ [Nat.repr n] }) := by
  have h_none : m.outbound.findIdx? (· == Nat.repr n) = none := by
    rw [List.findIdx?_eq_none_iff]
    intro tag h_mem
    rw [h.outbound_eq, List.mem_map] at h_mem
    obtain ⟨k, h_k, rfl⟩ := h_mem
    rw [beq_eq_false_iff_ne]
    intro heq
    -- a number is read back from its digits
    have h_digits : Nat.toDigits 10 k = Nat.toDigits 10 n := by
      rw [← Nat.toList_repr, heq, Nat.toList_repr]
    have h_eq := congrArg (Nat.ofDigitChars 10 · 0) h_digits
    simp only [Nat.ofDigitChars_ten_toDigits] at h_eq
    exact Nat.ne_of_lt (List.mem_range.mp h_k) h_eq
  unfold getOutboundPos
  rw [h_none, h.outbound_eq]
  simp

theorem rules4_concat (cs : List PutCall) (c : PutCall) :
    rules4 (cs ++ [c]) = rules4 cs ++ (c.rule4 UInt8.toNat).toList := by
  unfold rules4
  rw [List.filterMap_append, List.filterMap_cons]
  cases c.rule4 UInt8.toNat <;> rfl

/-- Up to `2 ^ 32 - 1` tags can be put. -/
theorem crowded (n : ℕ) (hn : n ≤ 2 ^ 32 - 1) : ∃ m, Crowded n m := by
  -- on the puts: all are at the path of `0.0.0.0/32`, so after the first no node is missing
  induction n with
  | zero =>
    refine ⟨GeoIPMatcher.new, rfl, GeoIPMatcher.valid_new, rfl, ?_, stores_new (by decide)⟩
    have h_miss := (new : PatriciaTrie 32).missing_le (pathOf (0 : BitVec 32) 32)
    rw [length_pathOf _ (Nat.le_refl 32)] at h_miss
    exact Nat.add_le_add_left h_miss 1
  | succ n ih =>
    obtain ⟨m, h⟩ := ih (Nat.le_of_succ_le hn)
    have h_room : Room m (.v4 0 32 (Nat.repr n)) := h.size_le.trans (by decide)
    have h_pos := h.getOutboundPos_eq
    have h_tag : TagRoom m (Nat.repr n) := by
      unfold TagRoom
      rw [h_pos]
      exact hn
    have h_len : (pathOf (0 : BitVec 32) 32).length ≤ 32 := (length_pathOf _ (Nat.le_refl 32)).le
    refine ⟨after m (.v4 0 32 (Nat.repr n)), ?_, valid_after h.valid h_room, ?_, ?_, ?_⟩
    · rw [crowd_succ, puts_concat, h.run, ok_bind]
      exact putCall_safe h.valid h_room fun _ => by decide
    · change (m.getOutboundPos (Nat.repr n)).2.outbound = _
      rw [h_pos, List.range_succ, List.map_append, ← h.outbound_eq]
      rfl
    · have h_size := h.valid.trie4.size_putAt h_len h_room
        (BitVec.ofNat 32 (m.getOutboundPos (Nat.repr n)).1)
      have h_miss := h.valid.trie4.missing_putAt h_len h_room
        (BitVec.ofNat 32 (m.getOutboundPos (Nat.repr n)).1)
      change (m.trie4.putAt _ _).size + (m.trie4.putAt _ _).missing _ ≤ 33
      exact (congrArg₂ (· + ·) h_size h_miss).trans_le h.size_le
    · rw [crowd_succ, rules4_concat]
      exact stores4_after h.stores (c := .v4 0 32 (Nat.repr n)) ⟨h_room, h_tag⟩

/-- A rule for the whole word, put last, decides that word. -/
theorem CidrRule.lpm_concat_of_full {w : ℕ} (rs : List (CidrRule w)) {r : CidrRule w}
    {a : BitVec w} (h : r.path = msbBits a) : lpm (rs ++ [r]) a = r.tag := by
  unfold lpm
  rw [longestMatch_eq_latest, length_msbBits]
  unfold latest
  rw [List.take_of_length_le (length_msbBits a).le, lastAt_concat, if_pos h, Option.some_or]
  rfl

/-- The put number `2 ^ 32` stores its tag under `u32::MAX`, which reads as no value. -/
theorem match4_crowd_succ {n : ℕ} (hn : n = 2 ^ 32 - 1) :
    ∃ m, GeoIPMatcher.new.puts .debug (crowd (n + 1)) = .ok m ∧
      m.match4 0 = .ok "" ∧ CidrRule.lpm (rules4 (crowd (n + 1))) 0 = Nat.repr n := by
  obtain ⟨m, h⟩ := crowded n hn.le
  have h_room : Room m (.v4 0 32 (Nat.repr n)) := h.size_le.trans (by decide)
  have h_len : (pathOf (0 : BitVec 32) 32).length ≤ 32 := (length_pathOf _ (Nat.le_refl 32)).le
  have h_valid := valid_after h.valid h_room
  -- the put does not panic
  refine ⟨after m (.v4 0 32 (Nat.repr n)), ?_, ?_, ?_⟩
  · rw [crowd_succ, puts_concat, h.run, ok_bind]
    exact putCall_safe h.valid h_room fun _ => by decide
  · -- nothing is stored anywhere: at the one path the value is the sentinel
    have h_value : BitVec.ofNat 32 (m.getOutboundPos (Nat.repr n)).1 = nullptr 32 := by
      rw [h.getOutboundPos_eq]
      -- the position of the tag is `u32::MAX`
      exact congrArg (BitVec.ofNat 32) hn
    have h_stored : ∀ q, (after m (.v4 0 32 (Nat.repr n))).trie4.stored q = none := by
      intro q
      refine (h.valid.trie4.stored_putAt h_len h_room _ q).trans ?_
      rw [h_value, if_pos rfl]
      split
      · rfl
      · next hq =>
        -- the other paths have no rule
        have h_tag := h.stores.tag_at q
        rw [lastAt_eq_none] at h_tag
        · exact Option.map_eq_none_iff.mp h_tag
        · intro r h_mem
          obtain ⟨c, h_c, h_r⟩ := List.mem_filterMap.mp h_mem
          obtain ⟨k, _, rfl⟩ := List.mem_map.mp h_c
          cases h_r
          exact hq
    unfold match4
    rw [h_valid.trie4.get_eq (Nat.le_refl 32), latest_eq_none fun i _ => h_stored _]
    rfl
  · -- the last rule has all bits of the address
    rw [crowd_succ, rules4_concat]
    exact CidrRule.lpm_concat_of_full (rules4 (crowd n))
      (r := ⟨0, 32, Nat.repr n⟩) rfl

theorem proper4_crowd (n : ℕ) : ∀ c ∈ crowd n, c.Safe .debug ∧ c.Proper4 := by
  intro c hc
  obtain ⟨k, _, rfl⟩ := List.mem_map.mp hc
  have h_range : 1 ≤ (32 : UInt8).toNat ∧ (32 : UInt8).toNat ≤ 32 := by decide
  exact ⟨fun _ => h_range, h_range⟩

/-- With `2 ^ 32` tags the last one is lost: its rule is the only match, and the answer is
the empty tag. -/
theorem match4_crowd : (∀ c ∈ crowd (2 ^ 32), c.Safe .debug ∧ c.Proper4) ∧
    ∃ m, GeoIPMatcher.new.puts .debug (crowd (2 ^ 32)) = .ok m ∧
      m.match4 0 = .ok "" ∧
      CidrRule.lpm (rules4 (crowd (2 ^ 32))) 0 = Nat.repr (2 ^ 32 - 1) :=
  ⟨proper4_crowd (2 ^ 32), match4_crowd_succ rfl⟩

/-- **IPv6 match.** `get` reads a 128-bit address from bit 31, so after a run in which every
put finds room an address is answered by its longest-prefix match exactly when the rules
decide it as they decide the address shifted left by 96; and every address is, exactly when
the rules send all addresses to one tag. -/
theorem match6_eq_lpm_iff (p : Profile) (calls : List PutCall)
    (h_safe : ∀ c ∈ calls, c.Safe p ∧ c.Proper6) (h_fit : RunFits p Fits6 GeoIPMatcher.new calls) :
    ∃ m, GeoIPMatcher.new.puts p calls = .ok m ∧
      (∀ a, m.match6 a = .ok (CidrRule.lpm (rules6 calls) a) ↔
        CidrRule.lpm (rules6 calls) (a <<< 96) = CidrRule.lpm (rules6 calls) a) ∧
      ((∀ a, m.match6 a = .ok (CidrRule.lpm (rules6 calls) a)) ↔
        ∀ a, CidrRule.lpm (rules6 calls) a = CidrRule.lpm (rules6 calls) 0) := by
  -- the run returns, and what it stores are the rules
  obtain ⟨m, h_run⟩ := puts_returns GeoIPMatcher.valid_new (fun c hc => (h_safe c hc).1)
    (h_fit.mono fun _ _ h => h.room)
  have h_stores := stores6_of_puts GeoIPMatcher.valid_new (stores_new (by decide)) h_fit h_run
  rw [List.nil_append, filterMap_rule6 fun c hc => (h_safe c hc).2] at h_stores
  -- for one address: the matcher answers for the address shifted left
  have h_iff : ∀ a, m.match6 a = .ok (CidrRule.lpm (rules6 calls) a) ↔
      CidrRule.lpm (rules6 calls) (a <<< 96) = CidrRule.lpm (rules6 calls) a := by
    intro a
    rw [match6_of_stores h_stores]
    exact ⟨Except.ok.inj, congrArg Except.ok⟩
  refine ⟨m, h_run, h_iff, ?_⟩
  simp only [h_iff]
  constructor
  · -- shifting twice leaves no bit of the address
    intro h a
    have h_zero : a <<< 96 <<< 96 = 0#128 := by
      rw [← BitVec.shiftLeft_add]
      exact BitVec.shiftLeft_eq_zero (by decide)
    rw [← h a, ← h (a <<< 96), h_zero]
    rfl
  · -- rules that send all addresses to one tag do not see the shift
    intro h a
    rw [h (a <<< 96), h a]

theorem match6_eq_lpm_iff_short :
    ∃ m, GeoIPMatcher.new.puts .debug [.v6 (1#128 <<< 127) 1 "proxy"] = .ok m ∧
    (∀ a, m.match6 a = .ok (CidrRule.lpm (rules6 [.v6 (1#128 <<< 127) 1 "proxy"]) a) ↔
      CidrRule.lpm (rules6 [.v6 (1#128 <<< 127) 1 "proxy"]) (a <<< 96) =
        CidrRule.lpm (rules6 [.v6 (1#128 <<< 127) 1 "proxy"]) a) ∧
    ((∀ a, m.match6 a = .ok (CidrRule.lpm (rules6 [.v6 (1#128 <<< 127) 1 "proxy"]) a)) ↔
      ∀ a, CidrRule.lpm (rules6 [.v6 (1#128 <<< 127) 1 "proxy"]) a =
        CidrRule.lpm (rules6 [.v6 (1#128 <<< 127) 1 "proxy"]) 0) :=
  match6_eq_lpm_iff .debug [.v6 (1#128 <<< 127) 1 "proxy"] (by decide)
    ((runFits_of_short GeoIPMatcher.valid_new (by decide) (by decide) (by decide)).mono
      fun _ _ h => h.2)

/-- The rule `8000::/1` is not found for the address `8000::`. -/
theorem match6_miss : ∃ m, GeoIPMatcher.new.puts .debug [.v6 (1#128 <<< 127) 1 "proxy"] = .ok m ∧
    m.match6 (1#128 <<< 127) = .ok "" ∧
    CidrRule.lpm (rules6 [.v6 (1#128 <<< 127) 1 "proxy"]) (1#128 <<< 127) = "proxy" :=
  ⟨_, rfl, by decide, by decide⟩

end Runs

end V2ray
