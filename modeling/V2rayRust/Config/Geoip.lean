import Mathlib.Data.List.TakeWhile
import V2rayRust.Config.GeoFile
import V2rayRust.Config.IpTrieBounds
import V2rayRust.Config.Routing

/-!
# Reading geoip files

`read_geoip_file` on the canonical encoding of a `GeoIPList`. The loop that goes through the fields
of an entry goes on through the entries after it: the country code tells whether a field with the
number 1 is the code of an entry or the next entry itself. What it makes of the file is a put for
each CIDR of the entries that are selected (`geoipFields_entries`). Two things come between these
puts and the CIDRs of the file:

1. The message that the CIDRs are merged into keeps the prefix of the one before, and a prefix of 0
   is not written (`geoipPuts_own_iff`).
2. With overflow checks the puts are made only up to the first one whose prefix is 0 or wider than
   the address: this one panics (`puts_run`). Nothing else can stop a put, since no index is out of
   bounds in a builder that has been made by calls (`inBounds_of_calls`).

So every CIDR has its put exactly if the prefixes are kept and in range (`readGeoipFile_puts_iff`).
-/

namespace V2ray

open Proto Varint

/-! ### The puts -/

/-- The put of an address and a prefix. -/
def putOf (tag : String) (ip : List UInt8) (pre : UInt32) : RuleCall :=
  if ip.length = 16 then .put (.v6 (RouteWorld.getUint 128 ip) (UInt8.ofNat pre.toNat) tag)
  else .put (.v4 (RouteWorld.getUint 32 ip) (UInt8.ofNat pre.toNat) tag)

/-- The prefix that a message which holds `pre` has when `c` has been merged into it. -/
def Cidr.mergedPre (pre : UInt32) (c : Cidr) : UInt32 := if c.pre = 0 then pre else c.pre

/-- The puts of CIDRs that are merged into one message in turn. -/
def geoipPuts (tag : String) : UInt32 → List Cidr → List RuleCall
  | _, [] => []
  | pre, c :: cs => putOf tag c.ip (c.mergedPre pre) :: geoipPuts tag (c.mergedPre pre) cs

theorem geoipPuts_append (tag : String) (pre : UInt32) (cs ds : List Cidr) :
    geoipPuts tag pre (cs ++ ds) =
      geoipPuts tag pre cs ++ geoipPuts tag (cs.foldl Cidr.mergedPre pre) ds := by
  induction cs generalizing pre with
  | nil => rfl
  | cons c cs ih => exact congrArg (_ :: ·) (ih _)

/-- A call puts the CIDR's own address with its own prefix. -/
def OwnPut (tag : String) (c : Cidr) : RuleCall → Prop
  | .put (.v4 ip pre t) => c.ip.length = 4 ∧ ip = RouteWorld.getUint 32 c.ip ∧
      pre.toNat = c.pre.toNat ∧ t = tag
  | .put (.v6 ip pre t) => c.ip.length = 16 ∧ ip = RouteWorld.getUint 128 c.ip ∧
      pre.toNat = c.pre.toNat ∧ t = tag
  | _ => False

/-- The prefix is one that a put does not panic at. -/
def Cidr.InRange (p : Profile) (c : Cidr) : Prop :=
  p = .debug → 1 ≤ c.pre.toNat ∧ c.pre.toNat ≤ 8 * c.ip.length

/-- The prefixes are those of a byte, and one that is left out does not follow one that is not. -/
def PrefixesKept (cs : List Cidr) : Prop :=
  (∀ c ∈ cs, c.pre.toNat < 256) ∧ cs.Pairwise fun c d => c.pre ≠ 0 → d.pre ≠ 0

/-- The IP address is an IPv4 or an IPv6 address. -/
def Cidr.HasIp (c : Cidr) : Prop := c.ip.length = 4 ∨ c.ip.length = 16

/-- A put has the prefix of its network exactly when the cast of the prefix to a byte does not
change it. -/
theorem ownPut_putOf_iff {tag : String} {c : Cidr} (h : c.HasIp) (pre : UInt32) :
    OwnPut tag c (putOf tag c.ip pre) ↔ (UInt8.ofNat pre.toNat).toNat = c.pre.toNat := by
  unfold putOf
  rcases h with h | h
  · rw [if_neg (by rw [h]; decide)]
    exact ⟨fun h_own => h_own.2.2.1, fun h_pre => ⟨h, rfl, h_pre, rfl⟩⟩
  · rw [if_pos h]
    exact ⟨fun h_own => h_own.2.2.1, fun h_pre => ⟨h, rfl, h_pre, rfl⟩⟩

/-- The put of a CIDR after a prefix that fits a byte. -/
theorem ownPut_merged_iff {tag : String} {c : Cidr} (h : c.HasIp) {pre : UInt32}
    (h_pre : pre.toNat < 256) :
    OwnPut tag c (putOf tag c.ip (c.mergedPre pre)) ↔
      c.pre.toNat < 256 ∧ (pre ≠ 0 → c.pre ≠ 0) := by
  -- a prefix is cut to a byte on its way to the put
  have h_byte (p : UInt32) : (UInt8.ofNat p.toNat).toNat = p.toNat % 256 := UInt8.toNat_ofNat'
  rw [ownPut_putOf_iff h, h_byte]
  unfold Cidr.mergedPre
  by_cases h_zero : c.pre = 0
  · -- a prefix of 0 is not on the wire, so the one before it is kept
    rw [if_pos h_zero, h_zero, Nat.mod_eq_of_lt h_pre]
    show pre.toNat = 0 ↔ (0 : ℕ) < 256 ∧ (pre ≠ 0 → (0 : UInt32) ≠ 0)
    constructor
    · intro h_nat
      exact ⟨by decide, fun h_ne => absurd (UInt32.toNat_inj.mp h_nat) h_ne⟩
    · intro h_kept
      by_contra h_ne
      exact h_kept.2 (fun h_eq => h_ne (by rw [h_eq]; rfl)) rfl
  · -- it is written, and the put has it if it fits
    rw [if_neg h_zero]
    constructor
    · intro h_mod
      exact ⟨h_mod ▸ Nat.mod_lt _ (by decide), fun _ => h_zero⟩
    · intro h_kept
      exact Nat.mod_eq_of_lt h_kept.1

theorem Cidr.mergedPre_lt {c : Cidr} {pre : UInt32} (h_pre : pre.toNat < 256)
    (h : c.pre.toNat < 256) : (c.mergedPre pre).toNat < 256 := by
  unfold Cidr.mergedPre
  split
  · exact h_pre
  · exact h

theorem Cidr.mergedPre_ne_zero {c : Cidr} {pre : UInt32} (h : pre ≠ 0 → c.pre ≠ 0) :
    c.mergedPre pre ≠ 0 ↔ c.pre ≠ 0 := by
  unfold Cidr.mergedPre
  split
  · next h_zero => exact ⟨h, fun h => absurd h_zero h⟩
  · rfl

/-- The puts after the prefix `pre` has been read. -/
theorem geoipPuts_own_from {tag : String} {cs : List Cidr} (h : ∀ c ∈ cs, c.HasIp) {pre : UInt32}
    (h_pre : pre.toNat < 256) :
    List.Forall₂ (OwnPut tag) cs (geoipPuts tag pre cs) ↔
      PrefixesKept cs ∧ (pre ≠ 0 → ∀ c ∈ cs, c.pre ≠ 0) := by
  induction cs generalizing pre with
  | nil => exact iff_of_true .nil ⟨⟨fun _ h => (by cases h), .nil⟩, fun _ _ h => (by cases h)⟩
  | cons c cs ih =>
    unfold geoipPuts
    rw [List.forall₂_cons, ownPut_merged_iff (h c List.mem_cons_self) h_pre]
    unfold PrefixesKept
    rw [List.pairwise_cons, List.forall_mem_cons, List.forall_mem_cons]
    by_cases h_c : c.pre.toNat < 256 ∧ (pre ≠ 0 → c.pre ≠ 0)
    · -- what the CIDRs that follow inherit is the prefix of this one, or what it inherited
      rw [ih (fun d hd => h d (List.mem_cons_of_mem _ hd)) (Cidr.mergedPre_lt h_pre h_c.1),
        Cidr.mergedPre_ne_zero h_c.2]
      unfold PrefixesKept
      constructor
      · rintro ⟨_, ⟨h_lt, h_pair⟩, h_after⟩
        exact ⟨⟨⟨h_c.1, h_lt⟩, fun d hd h => h_after h d hd, h_pair⟩,
          fun h => ⟨h_c.2 h, h_after (h_c.2 h)⟩⟩
      · rintro ⟨⟨⟨_, h_lt⟩, h_first, h_pair⟩, _⟩
        exact ⟨h_c, ⟨h_lt, h_pair⟩, fun h d hd => h_first d hd h⟩
    · -- the first put is not its CIDR's own, so neither are all of them
      refine iff_of_false (fun h => h_c h.1) fun h => h_c ⟨h.1.1.1, fun h_ne => (h.2 h_ne).1⟩

/-- **The puts are the CIDRs' own** exactly if the prefixes are kept. -/
theorem geoipPuts_own_iff {tag : String} {cs : List Cidr} (h : ∀ c ∈ cs, c.HasIp) :
    List.Forall₂ (OwnPut tag) cs (geoipPuts tag 0 cs) ↔ PrefixesKept cs := by
  rw [geoipPuts_own_from h (by decide)]
  exact ⟨fun h => h.1, fun h => ⟨h, fun h_ne => absurd rfl h_ne⟩⟩

/-! ### The puts that are made -/

/-- All calls for a list of networks are puts. -/
theorem geoipPuts_eq_map {tag : String} {pre : UInt32} {cs : List Cidr} :
    ∃ puts : List PutCall, geoipPuts tag pre cs = puts.map .put := by
  induction cs generalizing pre with
  | nil => exact ⟨[], rfl⟩
  | cons c cs ih =>
    obtain ⟨puts, h_puts⟩ := @ih (c.mergedPre pre)
    unfold geoipPuts putOf
    rw [h_puts]
    split
    · exact ⟨_ :: puts, rfl⟩
    · exact ⟨_ :: puts, rfl⟩

/-- A put of the CIDR's own prefix is as safe as this is. -/
theorem OwnPut.safe_iff {tag : String} {c : Cidr} {call : PutCall} (h : OwnPut tag c (.put call))
    (p : Profile) : call.Safe p ↔ c.InRange p := by
  cases call with
  | v4 ip pre t =>
    obtain ⟨h_len, -, h_pre, -⟩ := h
    unfold Cidr.InRange
    rw [h_len, ← h_pre]
    exact Iff.rfl
  | v6 ip pre t =>
    obtain ⟨h_len, -, h_pre, -⟩ := h
    unfold Cidr.InRange
    rw [h_len, ← h_pre]
    exact Iff.rfl

/-- Puts with the prefixes of their networks are safe exactly when the networks are in range. -/
theorem safe_iff_of_ownPuts {tag : String} {cs : List Cidr} {puts : List PutCall}
    (h : List.Forall₂ (OwnPut tag) cs (puts.map .put)) (p : Profile) :
    (∀ call ∈ puts, call.Safe p) ↔ ∀ c ∈ cs, c.InRange p := by
  induction puts generalizing cs with
  | nil =>
    cases h
    exact iff_of_true (fun _ h => (by cases h)) fun _ h => (by cases h)
  | cons call puts ih =>
    cases h with
    | cons h_own h_rest =>
      rw [List.forall_mem_cons, List.forall_mem_cons, h_own.safe_iff, ih h_rest]

namespace RouterBuilder

variable {p : Profile} {b : RouterBuilder}

/-- **No index is out of bounds** in a builder that calls have made. -/
theorem inBounds_of_calls {before : List RuleCall}
    (h : before.foldlM (RouterBuilder.apply p) .new = .ok b) : b.ipMatcher.InBounds :=
  GeoIPMatcher.inBounds_of_puts (holds_foldlM (holds_new p) h).puts

/-- A safe put returns, and its numbers stay in bounds. -/
theorem make_put_of_safe (h : b.ipMatcher.InBounds) {call : PutCall} (h_safe : call.Safe p) :
    ∃ b', b'.ipMatcher.InBounds ∧ b.make p (.put call) = .call (.put call) (.ok b') := by
  obtain ⟨m, h_put, h_m⟩ := h.putCall_returns h_safe
  refine ⟨{ b with ipMatcher := m }, h_m, ?_⟩
  unfold make RouterBuilder.apply
  dsimp only
  rw [h_put]
  rfl

theorem make_put_of_not_safe {call : PutCall} (h_safe : ¬ call.Safe p) :
    b.make p (.put call) = .lift (.error (.fault .overflow)) := by
  unfold make RouterBuilder.apply
  dsimp only
  rw [(GeoIPMatcher.putCall_overflow _ h_safe).2]
  rfl

/-- **The puts that are made** are those before the first one that is not safe. At that one the run
panics, and otherwise it returns. -/
theorem run_puts (h : b.ipMatcher.InBounds) (puts : List PutCall) :
    (b.run p ⟨puts.map .put, .ok ()⟩).calls = (puts.takeWhile fun c => c.Safe p).map .put ∧
      ((∃ b', (b.run p ⟨puts.map .put, .ok ()⟩).result = .ok b') ↔ ∀ c ∈ puts, c.Safe p) := by
  have h_run (b : RouterBuilder) (cs : List RuleCall) :
      b.run p ⟨cs, .ok ()⟩ = cs.foldlM (make p) b := bind_pure _
  rw [h_run]
  clear h_run
  induction puts generalizing b with
  | nil => exact ⟨rfl, iff_of_true ⟨b, rfl⟩ fun _ h => (by cases h)⟩
  | cons call puts ih =>
    rw [List.map_cons, List.foldlM_cons, List.takeWhile_cons, List.forall_mem_cons]
    by_cases h_safe : call.Safe p
    · obtain ⟨b', h_b', h_make⟩ := make_put_of_safe h h_safe
      obtain ⟨h_calls, h_result⟩ := ih h_b'
      rw [h_make, Trace.bind_of_ok rfl, if_pos (decide_eq_true h_safe)]
      exact ⟨congrArg (_ :: ·) h_calls, h_result.trans (and_iff_right h_safe).symm⟩
    · rw [make_put_of_not_safe h_safe, Trace.bind_of_error rfl,
        if_neg (by rw [decide_eq_true_eq]; exact h_safe)]
      exact ⟨rfl, iff_of_false (fun ⟨_, h_eq⟩ => (by cases h_eq)) fun h_all => h_safe h_all.1⟩

end RouterBuilder

/-! ### The loops -/

/-- The CIDRs of the entries with one of the (upper-case) tags, in order. -/
def GeoIp.selected (R : RouteWorld) (tags : List String) (entry : List GeoIp) : List Cidr :=
  (entry.filter fun g => tags.contains (R.toUppercase g.countryCode)).flatMap GeoIp.cidr

/-- The first entry gives its networks if its tag, in upper case, is asked for. -/
theorem GeoIp.selected_cons (R : RouteWorld) (tags : List String) (g : GeoIp) (es : List GeoIp) :
    selected R tags (g :: es) =
      (if tags.contains (R.toUppercase g.countryCode) then g.cidr else []) ++
        selected R tags es := by
  unfold selected
  rw [List.filter_cons]
  split
  · rfl
  · rfl

/-- The fields of an entry: its code comes first. -/
theorem GeoIp.encode_fields {g : GeoIp} (h : g.countryCode ≠ "") :
    encode g.fields = Field.encode ⟨1, .bytes (utf8 g.countryCode)⟩ ++
      encode (g.cidr.map fun c => ⟨2, .bytes (encode c.fields)⟩) := by
  unfold fields bytesField
  rw [if_neg (utf8_ne_nil h), encode_append]
  exact congrArg (· ++ _) (List.append_nil _)

namespace RouteWorld

section Loops

variable {R : RouteWorld} {left : R.Input → List UInt8} (h : R.Streams left) (tag : String)
  (tags : List String) {is : R.Input} {rest : List UInt8}

include h

/-- The country code of an entry. -/
theorem geoipFields_code {code : String}
    (h_left : left is = Field.encode ⟨1, .bytes (utf8 code)⟩ ++ rest)
    (h_size : (utf8 code).length < maxSize) :
    ∃ is', left is' = rest ∧ ∀ n cidr skipField,
      R.geoipFields tag tags (n + 1) is cidr "" skipField =
        R.geoipFields tag tags n is' cidr (R.toUppercase code)
          (!tags.contains (R.toUppercase code)) := by
  obtain ⟨is₁, is₂, _, h_eof, h_tag, h_type, h_is₂⟩ := h.header h_left (by decide) (by decide)
  obtain ⟨is₃, h_read, h_is₃⟩ := h.readString h_is₂ h_size
  refine ⟨is₃, h_is₃, fun n cidr skipField => ?_⟩
  simp only [geoipFields, h_eof, h_tag, h_type, io_ok_bind, lift_ok_bind, Bool.false_eq_true,
    if_false]
  -- there is no country code yet, so the field is taken for one
  rw [if_neg (by decide), h_read, io_ok_bind]

/-- The next entry: its length is read, and the country code is forgotten. -/
theorem geoipFields_entry {bs : List UInt8}
    (h_left : left is = Field.encode ⟨1, .bytes bs⟩ ++ rest) (h_size : bs.length < maxSize) :
    ∃ is', left is' = bs ++ rest ∧ ∀ n cidr countryCode skipField, countryCode ≠ "" →
      R.geoipFields tag tags (n + 1) is cidr countryCode skipField =
        R.geoipFields tag tags n is' cidr "" skipField := by
  obtain ⟨is₁, is₂, _, h_eof, h_tag, h_type, h_is₂⟩ := h.header h_left (by decide) (by decide)
  obtain ⟨_, is₃, h_read, h_is₃⟩ := h.length h_is₂ h_size
  refine ⟨is₃, h_is₃, fun n cidr countryCode skipField h_code => ?_⟩
  simp only [geoipFields, h_eof, h_tag, h_type, io_ok_bind, lift_ok_bind, Bool.false_eq_true,
    if_false]
  -- there is a country code already, so the field is the next entry
  rw [if_pos h_code, h_read, io_ok_bind]

/-- A CIDR of an entry that is not selected. -/
theorem geoipFields_skip {bs : List UInt8} (h_left : left is = Field.encode ⟨2, .bytes bs⟩ ++ rest)
    (h_size : bs.length < maxSize) :
    ∃ is', left is' = rest ∧ ∀ n cidr countryCode,
      R.geoipFields tag tags (n + 1) is cidr countryCode true =
        R.geoipFields tag tags n is' cidr countryCode true := by
  obtain ⟨is₁, is₂, _, h_eof, h_tag, h_type, h_is₂⟩ := h.header h_left (by decide) (by decide)
  obtain ⟨is₃, h_skip, h_is₃⟩ := h.skipField h_is₂ h_size
  refine ⟨is₃, h_is₃, fun n cidr countryCode => ?_⟩
  simp only [geoipFields, h_eof, h_tag, h_type, io_ok_bind, lift_ok_bind, Bool.false_eq_true,
    if_false]
  rw [if_pos trivial, h_skip, io_ok_bind]

/-- A CIDR of an entry that is selected: it is merged and put. -/
theorem geoipFields_cidr {c : Cidr} (h_ip : c.HasIp) (pre : UInt32)
    (h_left : left is = Field.encode ⟨2, .bytes (encode c.fields)⟩ ++ rest)
    (h_size : (encode c.fields).length < maxSize) :
    ∃ is', left is' = rest ∧ ∀ n countryCode,
      R.geoipFields tag tags (n + 1) is ⟨[], pre⟩ countryCode false =
        rule (putOf tag c.ip (c.mergedPre pre)) >>= fun _ =>
          R.geoipFields tag tags n is' ⟨[], c.mergedPre pre⟩ countryCode false := by
  obtain ⟨is₁, is₂, _, h_eof, h_tag, h_type, h_is₂⟩ := h.header h_left (by decide) (by decide)
  obtain ⟨is₃, h_merge, h_is₃⟩ :=
    h.mergeCidr ⟨[], pre⟩ h_is₂ h_size (Cidr.decode_fields h_size)
  have h_ne : c.ip ≠ [] := by
    intro h_nil
    rcases h_ip with h_ip | h_ip <;> rw [h_nil] at h_ip <;> cases h_ip
  have h_merged : (⟨[], pre⟩ : Cidr).mergeFrom c.fields = ⟨c.ip, c.mergedPre pre⟩ := by
    rw [Cidr.mergeFrom_fields, if_neg h_ne]
    rfl
  -- `get_u128` and `get_u32` leave no bytes of the address
  have h_put : putCidr tag ⟨c.ip, c.mergedPre pre⟩ =
      rule (putOf tag c.ip (c.mergedPre pre)) >>= fun _ => pure ⟨[], c.mergedPre pre⟩ := by
    unfold putCidr putOf
    rcases h_ip with h_ip | h_ip
    · rw [if_neg (by rw [h_ip]; decide), if_pos h_ip, if_neg (by rw [h_ip]; decide)]
    · rw [if_pos h_ip, if_pos h_ip]
  refine ⟨is₃, h_is₃, fun n countryCode => ?_⟩
  simp only [geoipFields, h_eof, h_tag, h_type, io_ok_bind, lift_ok_bind, Bool.false_eq_true,
    if_false]
  rw [h_merge, io_ok_bind]
  dsimp only
  rw [h_merged, h_put, bind_assoc]
  rfl

/-- The loop ends with the file. -/
theorem geoipFields_done (h_left : left is = []) : ∃ is', left is' = [] ∧
    ∀ n cidr countryCode skipField,
      R.geoipFields tag tags (n + 1) is cidr countryCode skipField =
        ⟨[], .ok (is', cidr, countryCode, skipField)⟩ := by
  obtain ⟨is', h_eof, h_is'⟩ := h.done h_left
  refine ⟨is', h_is', fun n cidr countryCode skipField => ?_⟩
  simp only [geoipFields, h_eof, io_ok_bind, if_true]
  rfl

/-- The CIDRs of an entry. What is left of the rounds is more than what is left of the file. -/
theorem geoipFields_cidrs (countryCode : String) (skipField : Bool) {cs : List Cidr}
    (h_ip : ∀ c ∈ cs, c.HasIp) (pre : UInt32) {n : ℕ}
    (h_left : left is = encode (cs.map fun c => ⟨2, .bytes (encode c.fields)⟩) ++ rest)
    (h_size : (left is).length < maxSize) (h_n : (left is).length < n) :
    ∃ n' is', left is' = rest ∧ rest.length < n' ∧
      R.geoipFields tag tags n is ⟨[], pre⟩ countryCode skipField =
        ⟨geoipPuts tag pre (if skipField then [] else cs), .ok ()⟩ >>= fun _ : Unit =>
          R.geoipFields tag tags n' is'
            ⟨[], (if skipField then [] else cs).foldl Cidr.mergedPre pre⟩ countryCode
            skipField := by
  induction cs generalizing n is pre with
  | nil =>
    have h_rest : left is = rest := h_left
    refine ⟨n, is, h_rest, h_rest ▸ h_n, ?_⟩
    cases skipField <;> rfl
  | cons c cs ih =>
    obtain ⟨n, rfl⟩ := Nat.exists_eq_add_of_lt (Nat.lt_of_le_of_lt (Nat.zero_le _) h_n)
    rw [Nat.zero_add] at h_n ⊢
    have h_left : left is = Field.encode ⟨2, .bytes (encode c.fields)⟩ ++
        (encode (cs.map fun c => ⟨2, .bytes (encode c.fields)⟩) ++ rest) :=
      h_left.trans (List.append_assoc _ _ _)
    have h_len := congrArg List.length h_left
    rw [List.length_append] at h_len
    have h_field : (encode c.fields).length <
        (Field.encode ⟨2, .bytes (encode c.fields)⟩).length := length_bytes_lt _ _
    have h_c : (encode c.fields).length < maxSize := by omega
    have h_cs : ∀ d ∈ cs, d.HasIp := fun d hd => h_ip d (List.mem_cons_of_mem _ hd)
    cases skipField with
    | true =>
      -- the prefix of the message stays as it is
      obtain ⟨is₁, h_is₁, h_eq⟩ := geoipFields_skip h tag tags h_left h_c
      have h_len₁ := congrArg List.length h_is₁
      obtain ⟨n', is', h_is', h_n', h_run⟩ :=
        ih h_cs pre (n := n) h_is₁ (by omega) (by omega)
      exact ⟨n', is', h_is', h_n', (h_eq _ _ _).trans h_run⟩
    | false =>
      -- the prefix goes from one message to the next
      obtain ⟨is₁, h_is₁, h_eq⟩ :=
        geoipFields_cidr h tag tags (h_ip c List.mem_cons_self) pre h_left h_c
      have h_len₁ := congrArg List.length h_is₁
      obtain ⟨n', is', h_is', h_n', h_run⟩ :=
        ih h_cs (c.mergedPre pre) (n := n) h_is₁ (by omega) (by omega)
      refine ⟨n', is', h_is', h_n', ?_⟩
      rw [h_eq, h_run]
      rfl

/-- The fields of an entry. -/
theorem geoipFields_body (skipField : Bool) {g : GeoIp} (h_ip : ∀ c ∈ g.cidr, c.HasIp)
    (h_code : g.countryCode ≠ "") (pre : UInt32) {n : ℕ}
    (h_left : left is = encode g.fields ++ rest)
    (h_size : (left is).length < maxSize) (h_n : (left is).length < n) :
    ∃ n' is', left is' = rest ∧ rest.length < n' ∧
      R.geoipFields tag tags n is ⟨[], pre⟩ "" skipField =
        ⟨geoipPuts tag pre (GeoIp.selected R tags [g]), .ok ()⟩ >>= fun _ : Unit =>
          R.geoipFields tag tags n' is' ⟨[], (GeoIp.selected R tags [g]).foldl Cidr.mergedPre pre⟩
            (R.toUppercase g.countryCode) (!tags.contains (R.toUppercase g.countryCode)) := by
  obtain ⟨n, rfl⟩ := Nat.exists_eq_add_of_lt (Nat.lt_of_le_of_lt (Nat.zero_le _) h_n)
  rw [Nat.zero_add] at h_n ⊢
  -- the code comes first, and the networks after it
  rw [GeoIp.encode_fields h_code, List.append_assoc] at h_left
  have h_len := congrArg List.length h_left
  rw [List.length_append] at h_len
  have h_field : (utf8 g.countryCode).length <
      (Field.encode ⟨1, .bytes (utf8 g.countryCode)⟩).length := length_bytes_lt _ _
  obtain ⟨is₁, h_is₁, h_eq⟩ := geoipFields_code h tag tags h_left (by omega)
  have h_len₁ := congrArg List.length h_is₁
  obtain ⟨n', is', h_is', h_n', h_run⟩ := geoipFields_cidrs h tag tags
    (R.toUppercase g.countryCode) (!tags.contains (R.toUppercase g.countryCode)) h_ip pre
    (n := n) h_is₁ (by omega) (by omega)
  refine ⟨n', is', h_is', h_n', ?_⟩
  -- the entry is selected as a whole, by its code
  have h_selected : GeoIp.selected R tags [g] =
      if !tags.contains (R.toUppercase g.countryCode) then [] else g.cidr := by
    rw [GeoIp.selected_cons]
    cases tags.contains (R.toUppercase g.countryCode)
    · rfl
    · exact List.append_nil _
  rw [h_eq, h_run, h_selected]

/-- **The inner loop**, from the fields of an entry on: it goes through the entries that follow
and puts the CIDRs of those that are selected. -/
theorem geoipFields_entries (skipField : Bool) {g : GeoIp} {es : List GeoIp}
    (h_ip : ∀ g' ∈ g :: es, ∀ c ∈ g'.cidr, c.HasIp)
    (h_codes : ∀ g' ∈ g :: es, g'.countryCode ≠ "") (pre : UInt32) {n : ℕ}
    (h_left : left is = encode g.fields ++ encode (GeoIp.listFields es))
    (h_size : (left is).length < maxSize) (h_n : (left is).length < n) :
    ∃ out, R.geoipFields tag tags n is ⟨[], pre⟩ "" skipField =
      ⟨geoipPuts tag pre (GeoIp.selected R tags (g :: es)), .ok out⟩ ∧ left out.1 = [] := by
  induction es generalizing g n is pre skipField with
  | nil =>
    obtain ⟨n', is₁, h_is₁, h_n', h_body⟩ := geoipFields_body h tag tags skipField
      (h_ip g List.mem_cons_self) (h_codes g List.mem_cons_self) pre h_left h_size h_n
    obtain ⟨n', rfl⟩ := Nat.exists_eq_add_of_lt h_n'
    obtain ⟨is₂, h_is₂, h_done⟩ := geoipFields_done h tag tags h_is₁
    rw [h_body, h_done, Trace.bind_of_ok rfl]
    dsimp only
    rw [List.append_nil]
    exact ⟨_, rfl, h_is₂⟩
  | cons g' es ih =>
    obtain ⟨n', is₁, h_is₁, h_n', h_body⟩ := geoipFields_body h tag tags skipField
      (h_ip g List.mem_cons_self) (h_codes g List.mem_cons_self) pre h_left h_size h_n
    obtain ⟨n', rfl⟩ := Nat.exists_eq_add_of_lt (Nat.lt_of_le_of_lt (Nat.zero_le _) h_n')
    rw [Nat.zero_add] at h_n' h_body
    -- the next entry is told from a country code by this
    have h_code : R.toUppercase g.countryCode ≠ "" := fun h_eq =>
      h_codes g List.mem_cons_self (h.toUppercase_eq h_eq)
    have h_is₁ : left is₁ =
        Field.encode ⟨1, .bytes (encode g'.fields)⟩ ++ encode (GeoIp.listFields es) := h_is₁
    have h_len := congrArg List.length h_left
    have h_field : (encode g'.fields).length <
        (Field.encode ⟨1, .bytes (encode g'.fields)⟩).length := length_bytes_lt _ _
    have h_next : (encode (GeoIp.listFields (g' :: es))).length =
        (Field.encode ⟨1, .bytes (encode g'.fields)⟩).length +
          (encode (GeoIp.listFields es)).length := List.length_append
    rw [List.length_append] at h_len
    obtain ⟨is₂, h_is₂, h_entry⟩ := geoipFields_entry h tag tags h_is₁ (by omega)
    have h_len₂ := congrArg List.length h_is₂
    rw [List.length_append] at h_len₂
    obtain ⟨out, h_run, h_out⟩ := ih (!tags.contains (R.toUppercase g.countryCode))
      (fun x hx => h_ip x (List.mem_cons_of_mem _ hx))
      (fun x hx => h_codes x (List.mem_cons_of_mem _ hx))
      ((GeoIp.selected R tags [g]).foldl Cidr.mergedPre pre) (n := n') h_is₂ (by omega) (by omega)
    refine ⟨out, ?_, h_out⟩
    have h_selected : GeoIp.selected R tags (g :: g' :: es) =
        GeoIp.selected R tags [g] ++ GeoIp.selected R tags (g' :: es) := by
      rw [GeoIp.selected_cons, GeoIp.selected_cons R tags g []]
      exact congrArg (· ++ _) (List.append_nil _).symm
    rw [h_body, h_entry _ _ _ _ h_code, h_run, h_selected, geoipPuts_append]
    rfl

/-- **The file.** -/
theorem geoipEntries_list {es : List GeoIp} (h_ip : ∀ g ∈ es, ∀ c ∈ g.cidr, c.HasIp)
    (h_codes : ∀ g ∈ es, g.countryCode ≠ "") {n : ℕ}
    (h_left : left is = encode (GeoIp.listFields es)) (h_size : (left is).length < maxSize)
    (h_n : (left is).length < n) :
    R.geoipEntries tag tags n is ⟨[], 0⟩ "" false =
      ⟨geoipPuts tag 0 (GeoIp.selected R tags es), .ok ()⟩ := by
  obtain ⟨n, rfl⟩ := Nat.exists_eq_add_of_lt (Nat.lt_of_le_of_lt (Nat.zero_le _) h_n)
  rw [Nat.zero_add] at h_n ⊢
  cases es with
  | nil =>
    obtain ⟨is', h_eof, _⟩ := h.done h_left
    simp only [geoipEntries, h_eof, io_ok_bind, if_true]
    rfl
  | cons g es =>
    have h_left : left is =
        Field.encode ⟨1, .bytes (encode g.fields)⟩ ++ encode (GeoIp.listFields es) := h_left
    have h_len := congrArg List.length h_left
    have h_field : (encode g.fields).length <
        (Field.encode ⟨1, .bytes (encode g.fields)⟩).length := length_bytes_lt _ _
    rw [List.length_append] at h_len
    obtain ⟨is₁, is₂, _, h_eof, h_tag, h_type, h_is₂⟩ := h.header h_left (by decide) (by decide)
    obtain ⟨_, is₃, h_read, h_is₃⟩ := h.length h_is₂ (by omega)
    have h_len₃ := congrArg List.length h_is₃
    rw [List.length_append] at h_len₃
    obtain ⟨out, h_run, h_out⟩ := geoipFields_entries h tag tags false h_ip h_codes 0 h_is₃
      (by omega) (h.rounds_gt is₃)
    obtain ⟨is₄, h_done, _⟩ := h.done h_out
    obtain ⟨n, rfl⟩ := Nat.exists_eq_add_of_lt (show 0 < n by omega)
    rw [Nat.zero_add]
    -- after the inner loop there is nothing left
    have h_rest : R.geoipEntries tag tags (n + 1) out.1 out.2.1 out.2.2.1 out.2.2.2 =
        ⟨[], .ok ()⟩ := by
      simp only [geoipEntries, h_done, io_ok_bind, if_true]
      rfl
    have h_round : R.geoipEntries tag tags (n + 1 + 1) is ⟨[], 0⟩ "" false =
        R.geoipFields tag tags (R.rounds is₃) is₃ ⟨[], 0⟩ "" false >>= fun out =>
          R.geoipEntries tag tags (n + 1) out.1 out.2.1 out.2.2.1 out.2.2.2 := by
      rw [geoipEntries, h_eof, io_ok_bind]
      dsimp only
      rw [if_neg Bool.false_ne_true, h_tag, io_ok_bind]
      dsimp only
      rw [h_read, io_ok_bind]
    rw [h_round, h_run, Trace.bind_of_ok rfl, h_rest]
    dsimp only
    rw [List.append_nil]

end Loops

/-- What reading a list in its canonical encoding makes. -/
theorem geoipCalls_eq {R : RouteWorld} {left : R.Input → List UInt8} (h : R.Streams left)
    {entry : List GeoIp} {file : List UInt8} (h_file : GeoIp.encodeList entry = some file)
    (h_codes : ∀ g ∈ entry, g.countryCode ≠ "") (h_ip : ∀ g ∈ entry, ∀ c ∈ g.cidr, c.HasIp)
    {fileName : String} {is : R.Input} (h_open : R.openFile fileName = .ok is)
    (h_left : left is = file) (outboundTag : String) (geoipTags : List String) :
    R.geoipCalls fileName outboundTag geoipTags =
      ⟨geoipPuts outboundTag 0 (GeoIp.selected R (geoipTags.map R.toUppercase) entry),
        .ok ()⟩ := by
  unfold GeoIp.encodeList at h_file
  split at h_file
  · next h_size =>
    obtain rfl := Option.some.inj h_file
    unfold geoipCalls
    rw [h_open]
    exact geoipEntries_list h outboundTag _ h_ip h_codes h_left (by rw [h_left]; exact h_size)
      (h.rounds_gt is)
  · cases h_file

/-- **Reading a geoip file.** The file holds a list in its canonical encoding. Reading it on a
builder that calls have made returns after exactly one put for each CIDR of the selected entries, in
the order of the file, with the CIDR's own address and prefix, if the prefixes of these CIDRs are
kept and in range, and only then. -/
theorem readGeoipFile_puts_iff {R : RouteWorld} {left : R.Input → List UInt8} (h : R.Streams left)
    {entry : List GeoIp} {file : List UInt8} (h_file : GeoIp.encodeList entry = some file)
    (h_codes : ∀ g ∈ entry, g.countryCode ≠ "") (h_ip : ∀ g ∈ entry, ∀ c ∈ g.cidr, c.HasIp)
    {fileName : String} {is : R.Input} (h_open : R.openFile fileName = .ok is)
    (h_left : left is = file) (outboundTag : String) (geoipTags : List String) {p : Profile}
    {before : List RuleCall} {b : RouterBuilder}
    (h_b : before.foldlM (RouterBuilder.apply p) .new = .ok b) :
    (∃ b', (b.readGeoipFile R p fileName outboundTag geoipTags).result = .ok b') ∧
        List.Forall₂ (OwnPut outboundTag) (GeoIp.selected R (geoipTags.map R.toUppercase) entry)
          (b.readGeoipFile R p fileName outboundTag geoipTags).calls ↔
      PrefixesKept (GeoIp.selected R (geoipTags.map R.toUppercase) entry) ∧
        ∀ c ∈ GeoIp.selected R (geoipTags.map R.toUppercase) entry, c.InRange p := by
  -- what the loop makes of the file are the puts of the CIDRs that are selected
  have h_calls := geoipCalls_eq h h_file h_codes h_ip h_open h_left outboundTag geoipTags
  have h_ips : ∀ c ∈ GeoIp.selected R (geoipTags.map R.toUppercase) entry, c.HasIp := by
    intro c hc
    obtain ⟨g, h_g, h_c⟩ := List.mem_flatMap.mp hc
    exact h_ip g (List.mem_filter.mp h_g).1 c h_c
  generalize GeoIp.selected R (geoipTags.map R.toUppercase) entry = selected at h_ips h_calls ⊢
  unfold RouterBuilder.readGeoipFile
  rw [h_calls, ← @geoipPuts_own_iff outboundTag selected h_ips]
  obtain ⟨puts, h_puts⟩ := @geoipPuts_eq_map outboundTag 0 selected
  rw [h_puts]
  obtain ⟨h_made, h_returns⟩ :=
    -- of these the ones before the first that panics are made
    RouterBuilder.run_puts (RouterBuilder.inBounds_of_calls h_b) (p := p) puts
  rw [h_made, h_returns]
  constructor
  · -- all of them are made, so their prefixes are in range
    rintro ⟨h_safe, h_own⟩
    rw [List.takeWhile_eq_self_iff.mpr fun c hc => decide_eq_true (h_safe c hc)] at h_own
    exact ⟨h_own, (safe_iff_of_ownPuts h_own p).mp h_safe⟩
  · -- none panics, so all of them are made
    rintro ⟨h_own, h_range⟩
    have h_safe := (safe_iff_of_ownPuts h_own p).mpr h_range
    rw [List.takeWhile_eq_self_iff.mpr fun c hc => decide_eq_true (h_safe c hc)]
    exact ⟨h_safe, h_own⟩

/-- A world with one file, which holds `entry`. -/
def holding (entry : List GeoIp) : RouteWorld :=
  overFiles fun _ => .ok (encode (GeoIp.listFields entry))

/-- A CIDR without a prefix, and one with a prefix. -/
def defaultThenNet : List GeoIp := [⟨"CN", [⟨[0, 0, 0, 0], 0⟩, ⟨[1, 2, 3, 0], 24⟩]⟩]

/-- The same in the other order. -/
def netThenDefault : List GeoIp := [⟨"CN", [⟨[1, 2, 3, 0], 24⟩, ⟨[0, 0, 0, 0], 0⟩]⟩]

theorem toUpper_eq (s : String) : s.toUpper = String.ofList (s.toList.map Char.toUpper) :=
  String.toList_inj.mp (String.toList_map.trans String.toList_ofList.symm)

/-- Without overflow checks both CIDRs are put, the first with its prefix of 0. -/
theorem readGeoipFile_puts_defaultThenNet :
    List.Forall₂ (OwnPut "direct") [⟨[0, 0, 0, 0], 0⟩, ⟨[1, 2, 3, 0], 24⟩]
      (RouterBuilder.new.readGeoipFile (holding defaultThenNet) .release "geoip.dat" "direct"
        ["cn"]).calls := by
  -- the file, what is read of it, and what is selected, by computation
  have h_file : GeoIp.encodeList defaultThenNet =
      some (encode (GeoIp.listFields defaultThenNet)) := by
    decide +kernel
  have h_open : (holding defaultThenNet).openFile "geoip.dat" =
      .ok (encode (GeoIp.listFields defaultThenNet)) := rfl
  have h_streams : (holding defaultThenNet).Streams id := overFiles_streams
  have h_new : [].foldlM (RouterBuilder.apply .release) .new = .ok .new := rfl
  have h_read := readGeoipFile_puts_iff h_streams h_file (by decide)
    (by unfold Cidr.HasIp; decide) h_open rfl "direct" ["cn"] h_new
  have h_selected : GeoIp.selected (holding defaultThenNet) (["cn"].map String.toUpper)
      defaultThenNet = [⟨[0, 0, 0, 0], 0⟩, ⟨[1, 2, 3, 0], 24⟩] := by
    show (defaultThenNet.filter fun g =>
      (["cn"].map String.toUpper).contains g.countryCode.toUpper).flatMap GeoIp.cidr = _
    -- letter by letter, so that it can be computed
    simp only [toUpper_eq]
    decide +kernel
  have h_kept : PrefixesKept [⟨[0, 0, 0, 0], 0⟩, ⟨[1, 2, 3, 0], 24⟩] := by
    unfold PrefixesKept
    decide
  rw [show (holding defaultThenNet).toUppercase = String.toUpper from rfl, h_selected] at h_read
  exact (h_read.mpr ⟨h_kept, fun _ _ h => (by cases h)⟩).2

/-- The second message has the prefix of the first. In the other order the first put panics, with
overflow checks, and there is no other. -/
theorem readGeoipFile_leaks :
    GeoIp.encodeList netThenDefault = some (encode (GeoIp.listFields netThenDefault)) ∧
    (∀ p, (RouterBuilder.new.readGeoipFile (holding netThenDefault) p "geoip.dat" "direct"
        ["CN"]).calls = [.put (.v4 0x01020300 24 "direct"), .put (.v4 0 24 "direct")]) ∧
    (∀ p, ¬ List.Forall₂ (OwnPut "direct")
      (GeoIp.selected (holding netThenDefault) ["CN"] netThenDefault)
      (RouterBuilder.new.readGeoipFile (holding netThenDefault) p "geoip.dat" "direct"
        ["CN"]).calls) ∧
    RouterBuilder.new.readGeoipFile (holding defaultThenNet) .debug "geoip.dat" "direct" ["CN"] =
      ⟨[], .error (.fault .overflow)⟩ := by
  have h_calls (p : Profile) : (RouterBuilder.new.readGeoipFile (holding netThenDefault) p
      "geoip.dat" "direct" ["CN"]).calls =
        [.put (.v4 0x01020300 24 "direct"), .put (.v4 0 24 "direct")] := by
    cases p <;> decide +kernel
  have h_selected : GeoIp.selected (holding netThenDefault) ["CN"] netThenDefault =
      [⟨[1, 2, 3, 0], 24⟩, ⟨[0, 0, 0, 0], 0⟩] := by
    decide +kernel
  -- the puts that are made, and the second CIDR with the prefix of the first
  refine ⟨by decide +kernel, h_calls, fun p h_own => ?_, ?_⟩
  · rw [h_calls, h_selected] at h_own
    cases h_own with
    | cons _ h_rest =>
      cases h_rest with
      | cons h_own _ => exact absurd h_own.2.2.1 (by decide)
  · -- the put of `0.0.0.0/0` is the first call of the run
    have h_first : ((holding defaultThenNet).geoipCalls "geoip.dat" "direct" ["CN"]).calls =
        [.put (.v4 0 0 "direct"), .put (.v4 0x01020300 24 "direct")] := by
      decide +kernel
    unfold RouterBuilder.readGeoipFile RouterBuilder.run
    rw [h_first]
    rfl

end RouteWorld

end V2ray
