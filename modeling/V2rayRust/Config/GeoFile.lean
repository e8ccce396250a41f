import V2rayRust.Config.Route
import V2rayRust.Lib.Bytes
import V2rayRust.Lib.Protobuf

/-!
# Geoip and geosite files

The messages of `geoip.proto` and `geosite.proto`, as their `write_to_with_cached_sizes` and
`merge_from` have them, and what the readers of `config/route.rs` rely on: that
`CodedInputStream` reads what protobuf says is there (`Streams`).

For each message, its fields in the canonical encoding are read back, and what is made of them by
`merge_from` is the message again, as far as the readers have a place for it. `Streams` says what
the `protobuf` crate does with such fields; a world of files in which it holds is `overFiles`.
-/

namespace V2ray

open Proto Varint

/-- The bytes of a string. -/
def utf8 (s : String) : List UInt8 := s.toUTF8.toList

theorem fromUTF8?_utf8 (s : String) : String.fromUTF8? ⟨(utf8 s).toArray⟩ = some s :=
  fromUTF8?_eq_some.mpr rfl

theorem utf8_ne_nil {s : String} (h : s ≠ "") : utf8 s ≠ [] := by
  intro h_nil
  have h_back := fromUTF8?_utf8 s
  rw [h_nil] at h_back
  exact h (Option.some.inj h_back).symm

/-- A field that is written unless it is empty. -/
def bytesField (number : ℕ) (bs : List UInt8) : List Field :=
  if bs = [] then [] else [⟨number, .bytes bs⟩]

/-- A field that is written unless it is zero. -/
def numberField (number n : ℕ) : List Field :=
  if n = 0 then [] else [⟨number, .number n⟩]

/-! ### `geoip.proto` -/

namespace Cidr

def fields (c : Cidr) : List Field := bytesField 1 c.ip ++ numberField 2 c.pre.toNat

/-- One round of `merge_from`. -/
def mergeField (c : Cidr) (f : Field) : Cidr :=
  match f.tag, f.value with
  | 10, .bytes ip => { c with ip }
  | 16, .number n => { c with pre := UInt32.ofNat n }
  | _, _ => c

def mergeFrom (c : Cidr) (fs : List Field) : Cidr := fs.foldl mergeField c

end Cidr

/-- `geoip::GeoIP` -/
structure GeoIp where
  countryCode : String
  cidr : List Cidr

namespace GeoIp

def fields (g : GeoIp) : List Field :=
  bytesField 1 (utf8 g.countryCode) ++ g.cidr.map fun c => ⟨2, .bytes (encode c.fields)⟩

/-- The fields of `geoip::GeoIPList`. -/
def listFields (entry : List GeoIp) : List Field :=
  entry.map fun g => ⟨1, .bytes (encode g.fields)⟩

/-- The canonical encoding of a list, if it can be encoded. -/
def encodeList (entry : List GeoIp) : Option (List UInt8) :=
  if (encode (listFields entry)).length < maxSize then some (encode (listFields entry)) else none

end GeoIp

/-! ### `geosite.proto` -/

namespace Geosite

/-- `geosite::domain::attribute::Typed_value` -/
inductive TypedValue
  | boolValue (b : Bool)
  | intValue (i : BitVec 64)

/-- `geosite::domain::Attribute` -/
structure Attribute where
  key : String
  typedValue : Option TypedValue

namespace Attribute

def fields (a : Attribute) : List Field :=
  bytesField 1 (utf8 a.key) ++ match a.typedValue with
    | some (.boolValue b) => [⟨2, .number b.toNat⟩]
    | some (.intValue i) => [⟨3, .number i.toNat⟩]
    | none => []

/-- One round of `merge_from`; only a key that is no string is refused. -/
def mergeField (a : Attribute) (f : Field) : Option Attribute :=
  match f.tag, f.value with
  | 10, .bytes bs => (String.fromUTF8? ⟨bs.toArray⟩).map fun key => { a with key }
  | 16, .number n => some { a with typedValue := some (.boolValue (n ≠ 0)) }
  | 24, .number n => some { a with typedValue := some (.intValue (BitVec.ofNat 64 n)) }
  | _, _ => some a

def mergeFrom (a : Attribute) (fs : List Field) : Option Attribute := fs.foldlM mergeField a

end Attribute

/-- `geosite::Domain` -/
structure Domain where
  type : SiteType
  value : String
  attributes : List Attribute

/-- The number of a type. -/
def typeNumber : SiteType → ℕ
  | .plain => 0
  | .regex => 1
  | .domain => 2
  | .full => 3

namespace Domain

def fields (d : Domain) : List Field :=
  numberField 1 (typeNumber d.type) ++ bytesField 2 (utf8 d.value) ++
    d.attributes.map fun a => ⟨3, .bytes (encode a.fields)⟩

/-- What is left of a domain that has been read. -/
def site (d : Domain) : SiteDomain := ⟨typeNumber d.type, d.value⟩

end Domain

/-- `geosite::SiteGroup` -/
structure SiteGroup where
  tag : String
  domain : List Domain

namespace SiteGroup

def fields (g : SiteGroup) : List Field :=
  bytesField 1 (utf8 g.tag) ++ g.domain.map fun d => ⟨2, .bytes (encode d.fields)⟩

/-- The fields of `geosite::SiteGroupList`. -/
def listFields (siteGroup : List SiteGroup) : List Field :=
  siteGroup.map fun g => ⟨1, .bytes (encode g.fields)⟩

/-- The canonical encoding of a list, if it can be encoded. -/
def encodeList (siteGroup : List SiteGroup) : Option (List UInt8) :=
  if (encode (listFields siteGroup)).length < maxSize then some (encode (listFields siteGroup))
  else none

end SiteGroup

end Geosite

namespace SiteDomain

/-- One round of `merge_from`: a value that is no string is refused, and an attribute that cannot
be read. -/
def mergeField (d : SiteDomain) (f : Field) : Option SiteDomain :=
  match f.tag, f.value with
  | 8, .number n => some { d with rawType := (BitVec.ofNat 32 n).toInt }
  | 18, .bytes bs => (String.fromUTF8? ⟨bs.toArray⟩).map fun value => { d with value }
  | 26, .bytes bs => do
    let fs ← decode bs
    let _ ← Geosite.Attribute.mergeFrom ⟨"", none⟩ fs
    return d
  | _, _ => some d

def mergeFrom (d : SiteDomain) (fs : List Field) : Option SiteDomain := fs.foldlM mergeField d

end SiteDomain

/-! ### What is read back -/

/-- The fields of a message that are not submessages. -/
theorem number_of_mem_bytesField {k : ℕ} {bs : List UInt8} {f : Field}
    (h : f ∈ bytesField k bs) : f = ⟨k, .bytes bs⟩ := by
  unfold bytesField at h
  split at h
  · cases h
  · exact List.mem_singleton.mp h

theorem number_of_mem_numberField {k n : ℕ} {f : Field} (h : f ∈ numberField k n) :
    f = ⟨k, .number n⟩ := by
  unfold numberField at h
  split at h
  · cases h
  · exact List.mem_singleton.mp h

/-- The fields of a CIDR are read back. -/
theorem Cidr.decode_fields {c : Cidr} (h : (encode c.fields).length < maxSize) :
    decode (encode c.fields) = some c.fields := by
  refine decode_encode (valid_of_size h (fun f hf => ?_) fun f hf n h_n => ?_)
  · rcases List.mem_append.mp hf with hf | hf
    · rw [number_of_mem_bytesField hf]
      simp
    · rw [number_of_mem_numberField hf]
      simp
  · rcases List.mem_append.mp hf with hf | hf
    · rw [number_of_mem_bytesField hf] at h_n
      cases h_n
    · rw [number_of_mem_numberField hf] at h_n
      cases h_n
      exact Nat.lt_trans c.pre.toNat_lt (by decide)

/-- Merging what was written: a field that was left out keeps what was there. -/
theorem Cidr.mergeFrom_fields (c d : Cidr) :
    d.mergeFrom c.fields =
      ⟨if c.ip = [] then d.ip else c.ip, if c.pre = 0 then d.pre else c.pre⟩ := by
  have h_ip : (bytesField 1 c.ip).foldl mergeField d =
      { d with ip := if c.ip = [] then d.ip else c.ip } := by
    unfold bytesField
    split
    · rfl
    · rfl
  have h_pre (e : Cidr) : (numberField 2 c.pre.toNat).foldl mergeField e =
      { e with pre := if c.pre = 0 then e.pre else c.pre } := by
    unfold numberField
    by_cases h : c.pre = 0
    · rw [h]
      rfl
    · have h_nat : c.pre.toNat ≠ 0 := fun h_nat => h (UInt32.toNat_inj.mp h_nat)
      rw [if_neg h, if_neg h_nat]
      show (⟨e.ip, UInt32.ofNat c.pre.toNat⟩ : Cidr) = ⟨e.ip, c.pre⟩
      rw [UInt32.ofNat_toNat]
  unfold mergeFrom fields
  rw [List.foldl_append, h_ip, h_pre]

namespace Geosite

/-- The fields of an attribute are read back. -/
theorem Attribute.decode_fields {a : Attribute} (h : (encode a.fields).length < maxSize) :
    decode (encode a.fields) = some a.fields := by
  obtain ⟨key, typedValue⟩ := a
  refine decode_encode (valid_of_size h (fun f hf => ?_) fun f hf n h_n => ?_)
  · -- every field has a number that a key may have, and a value that is read back
    rcases List.mem_append.mp hf with hf | hf
    · rw [number_of_mem_bytesField hf]
      simp
    · rcases typedValue with _ | b | i
      · cases hf
      · rw [List.mem_singleton.mp hf]
        simp
      · rw [List.mem_singleton.mp hf]
        simp
  · rcases List.mem_append.mp hf with hf | hf
    · rw [number_of_mem_bytesField hf] at h_n
      cases h_n
    · rcases typedValue with _ | b | i
      · cases hf
      · rw [List.mem_singleton.mp hf] at h_n
        cases h_n
        cases b <;> decide
      · rw [List.mem_singleton.mp hf] at h_n
        cases h_n
        exact i.isLt

/-- The fields of an attribute can be merged into any other. -/
theorem Attribute.mergeFrom_fields (a b : Attribute) :
    ∃ a', b.mergeFrom a.fields = some a' := by
  have h_key : ∃ b', (bytesField 1 (utf8 a.key)).foldlM mergeField b = some b' := by
    unfold bytesField
    split
    · exact ⟨b, rfl⟩
    · refine ⟨{ b with key := a.key }, ?_⟩
      show ((String.fromUTF8? ⟨(utf8 a.key).toArray⟩).map _).bind _ = _
      rw [fromUTF8?_utf8]
      rfl
  obtain ⟨b', h_b'⟩ := h_key
  unfold mergeFrom fields
  rw [List.foldlM_append, h_b']
  rcases a.typedValue with _ | v | i
  · exact ⟨_, rfl⟩
  · exact ⟨_, rfl⟩
  · exact ⟨_, rfl⟩

/-- The fields of a domain are read back. -/
theorem Domain.decode_fields {d : Domain} (h : (encode d.fields).length < maxSize) :
    decode (encode d.fields) = some d.fields := by
  refine decode_encode (valid_of_size h (fun f hf => ?_) fun f hf n h_n => ?_)
  · rcases List.mem_append.mp hf with hf | hf
    · rcases List.mem_append.mp hf with hf | hf
      · rw [number_of_mem_numberField hf]
        simp
      · rw [number_of_mem_bytesField hf]
        simp
    · obtain ⟨a, _, rfl⟩ := List.mem_map.mp hf
      simp
  · rcases List.mem_append.mp hf with hf | hf
    · rcases List.mem_append.mp hf with hf | hf
      · rw [number_of_mem_numberField hf] at h_n
        cases h_n
        cases d.type <;> decide
      · rw [number_of_mem_bytesField hf] at h_n
        cases h_n
    · obtain ⟨a, _, rfl⟩ := List.mem_map.mp hf
      cases h_n

/-- Attributes are read and dropped. -/
theorem Domain.mergeFrom_attributes {as : List Attribute} (s : SiteDomain)
    (h : ∀ a ∈ as, (encode a.fields).length < maxSize) :
    (as.map fun a => (⟨3, .bytes (encode a.fields)⟩ : Field)).foldlM SiteDomain.mergeField s =
      some s := by
  induction as with
  | nil => rfl
  | cons a as ih =>
    obtain ⟨a', h_a'⟩ := Attribute.mergeFrom_fields a ⟨"", none⟩
    have h_step : s.mergeField ⟨3, .bytes (encode a.fields)⟩ = some s := by
      show ((decode (encode a.fields)).bind fun fs =>
        (Attribute.mergeFrom ⟨"", none⟩ fs).bind fun _ => some s) = some s
      rw [Attribute.decode_fields (h a List.mem_cons_self), Option.bind_some, h_a']
      rfl
    rw [List.map_cons, List.foldlM_cons, h_step]
    exact ih fun b hb => h b (List.mem_cons_of_mem _ hb)

/-- What is made of the fields of a domain is its type and its value. -/
theorem Domain.mergeFrom_fields {d : Domain} (h : (encode d.fields).length < maxSize) :
    SiteDomain.mergeFrom ⟨0, ""⟩ d.fields = some d.site := by
  -- the fields come in the order in which they are declared, each with its default left out
  have h_type : (numberField 1 (typeNumber d.type)).foldlM SiteDomain.mergeField ⟨0, ""⟩ =
      some ⟨typeNumber d.type, ""⟩ := by
    cases d.type <;> rfl
  have h_value (s : SiteDomain) (h_s : s.value = "") :
      (bytesField 2 (utf8 d.value)).foldlM SiteDomain.mergeField s =
        some { s with value := d.value } := by
    unfold bytesField
    split
    · next h_nil =>
      have h_empty : d.value = "" := by_contra fun h_ne => utf8_ne_nil h_ne h_nil
      rw [h_empty, ← h_s]
      rfl
    · show ((String.fromUTF8? ⟨(utf8 d.value).toArray⟩).map _).bind _ = _
      rw [fromUTF8?_utf8]
      rfl
  -- an attribute is a field of the message, so it is no longer than the message
  have h_attributes (a : Attribute) (h_a : a ∈ d.attributes) :
      (encode a.fields).length < maxSize := by
    have h_mem : (⟨3, .bytes (encode a.fields)⟩ : Field) ∈ d.fields :=
      List.mem_append_right _ (List.mem_map.mpr ⟨a, h_a, rfl⟩)
    exact Nat.lt_of_le_of_lt (length_bytes_le h_mem) h
  unfold SiteDomain.mergeFrom fields
  rw [List.foldlM_append, List.foldlM_append, h_type]
  show ((bytesField 2 (utf8 d.value)).foldlM SiteDomain.mergeField _).bind _ = _
  rw [h_value _ rfl, Option.bind_some]
  exact mergeFrom_attributes _ h_attributes

end Geosite

/-! ### Streams -/

/-- What the readers rely on, where `left` are the bytes that an input has still to give. The
lengths of strings and of fields are numbers of 32 bits. -/
structure RouteWorld.Streams (R : RouteWorld) (left : R.Input → List UInt8) : Prop where
  toUppercase_eq : ∀ {s}, R.toUppercase s = "" → s = ""
  rounds_gt : ∀ is, (left is).length < R.rounds is
  eof : ∀ is, ∃ is', R.eof is = .ok (decide (left is = []), is') ∧ left is' = left is
  readRawVarint32 : ∀ {is n rest}, left is = base128.encode n ++ rest → n < 2 ^ 32 →
    ∃ is', R.readRawVarint32 is = .ok (UInt32.ofNat n, is') ∧ left is' = rest
  readRawVarint64 : ∀ {is n rest}, left is = base128.encode n ++ rest → n < 2 ^ 64 →
    ∃ is', R.readRawVarint64 is = .ok (UInt64.ofNat n, is') ∧ left is' = rest
  readString : ∀ {is s rest}, left is = lenPrefixed (utf8 s) ++ rest → (utf8 s).length < maxSize →
    ∃ is', R.readString is = .ok (s, is') ∧ left is' = rest
  skipField : ∀ {is bs rest}, left is = lenPrefixed bs ++ rest → bs.length < maxSize →
    ∃ is', R.skipField .lengthDelimited is = .ok is' ∧ left is' = rest
  readDomain : ∀ {is bs rest fs d}, left is = lenPrefixed bs ++ rest → bs.length < maxSize →
    decode bs = some fs → SiteDomain.mergeFrom ⟨0, ""⟩ fs = some d →
    ∃ is', R.readDomain is = .ok (d, is') ∧ left is' = rest
  mergeCidr : ∀ {is bs rest fs} (c : Cidr), left is = lenPrefixed bs ++ rest →
    bs.length < maxSize → decode bs = some fs →
    ∃ is', R.mergeCidr c is = .ok (c.mergeFrom fs, is') ∧ left is' = rest

/-- The tag of a field of bytes. -/
theorem toFieldNumAndWireType_bytes {k : ℕ} (h_pos : 0 < k) (h_lt : k < 2 ^ 29) :
    toFieldNumAndWireType (UInt32.ofNat (k * 8 + 2)) = .ok (k, .lengthDelimited) := by
  have h_nat : (UInt32.ofNat (k * 8 + 2)).toNat = k * 8 + 2 :=
    UInt32.toNat_ofNat_of_lt' (show k * 8 + 2 < 2 ^ 32 by omega)
  have h_mod : (k * 8 + 2) % 8 = 2 := by omega
  have h_div : (k * 8 + 2) / 8 = k := by omega
  unfold toFieldNumAndWireType
  rw [h_nat, h_mod, h_div]
  exact if_neg (Nat.ne_of_gt h_pos)

section Streams

variable {R : RouteWorld} {left : R.Input → List UInt8}

/-- What a round of a reader's loop does first: it looks whether the input is at its end and reads
the tag of a field. -/
theorem RouteWorld.Streams.tag (h : R.Streams left) {is : R.Input} {k : ℕ} {rest : List UInt8}
    (h_left : left is = base128.encode (k * 8 + 2) ++ rest) (h_lt : k < 2 ^ 29) :
    ∃ is₁ is₂, R.eof is = .ok (false, is₁) ∧
      R.readRawVarint32 is₁ = .ok (UInt32.ofNat (k * 8 + 2), is₂) ∧ left is₂ = rest := by
  obtain ⟨is₁, h_eof, h_is₁⟩ := h.eof is
  have h_ne : left is ≠ [] := by
    intro h_nil
    have h_pos := base128_lawful.length_pos (n := k * 8 + 2) (by omega)
    rw [h_left, List.append_eq_nil_iff] at h_nil
    rw [h_nil.1] at h_pos
    cases h_pos
  rw [decide_eq_false h_ne] at h_eof
  obtain ⟨is₂, h_read, h_is₂⟩ :=
    h.readRawVarint32 (h_is₁.trans h_left) (show k * 8 + 2 < 2 ^ 32 by omega)
  exact ⟨is₁, is₂, h_eof, h_read, h_is₂⟩

/-- The same, of a field of bytes: what is left is their length and the bytes. -/
theorem RouteWorld.Streams.header (h : R.Streams left) {is : R.Input} {k : ℕ} {bs rest : List UInt8}
    (h_left : left is = Field.encode ⟨k, .bytes bs⟩ ++ rest) (h_pos : 0 < k) (h_lt : k < 2 ^ 29) :
    ∃ is₁ is₂ value, R.eof is = .ok (false, is₁) ∧ R.readRawVarint32 is₁ = .ok (value, is₂) ∧
      toFieldNumAndWireType value = .ok (k, .lengthDelimited) ∧
      left is₂ = lenPrefixed bs ++ rest := by
  have h_left : left is = base128.encode (k * 8 + 2) ++ (lenPrefixed bs ++ rest) :=
    h_left.trans (List.append_assoc _ _ _)
  obtain ⟨is₁, is₂, h_eof, h_tag, h_is₂⟩ := h.tag h_left h_lt
  exact ⟨is₁, is₂, _, h_eof, h_tag, toFieldNumAndWireType_bytes h_pos h_lt, h_is₂⟩

/-- The length of a message is read by itself. -/
theorem RouteWorld.Streams.length (h : R.Streams left) {is : R.Input} {bs rest : List UInt8}
    (h_left : left is = lenPrefixed bs ++ rest) (h_size : bs.length < maxSize) :
    ∃ n is', R.readRawVarint64 is = .ok (n, is') ∧ left is' = bs ++ rest := by
  have h_left : left is = base128.encode bs.length ++ (bs ++ rest) :=
    h_left.trans (List.append_assoc _ _ _)
  obtain ⟨is', h_read, h_is'⟩ := h.readRawVarint64 h_left (Nat.lt_trans h_size (by decide))
  exact ⟨_, is', h_read, h_is'⟩

/-- The input is at its end. -/
theorem RouteWorld.Streams.done (h : R.Streams left) {is : R.Input} (h_left : left is = []) :
    ∃ is', R.eof is = .ok (true, is') ∧ left is' = [] := by
  obtain ⟨is', h_eof, h_is'⟩ := h.eof is
  rw [decide_eq_true h_left] at h_eof
  exact ⟨is', h_eof, h_is'.trans h_left⟩

theorem RouteWorld.io_ok_bind {α β : Type} (a : α) (f : α → Trace RuleCall Stop β) :
    RouteWorld.io (.ok a) >>= f = f a := rfl

theorem RouteWorld.lift_ok_bind {α β : Type} (a : α) (f : α → Trace RuleCall Stop β) :
    Trace.lift (.ok a) >>= f = f a := rfl

end Streams

/-- `CodedInputStream` over files that are in memory. -/
def RouteWorld.overFiles (openFile : String → Except String (List UInt8)) : RouteWorld where
  isIpCidr _ := false
  ipCidr _ := none
  toUppercase := String.toUpper
  Input := List UInt8
  openFile := openFile
  rounds is := is.length + 1
  eof is := .ok (is.isEmpty, is)
  readRawVarint32 is := (number is).map fun p => (UInt32.ofNat p.1, p.2)
  readRawVarint64 is := (number is).map fun p => (UInt64.ofNat p.1, p.2)
  readString is := do
    let p ← block is
    match String.fromUTF8? ⟨p.1.toArray⟩ with
    | some s => .ok (s, p.2)
    | none => .error "Invalid UTF-8 sequence"
  skipField wireType is :=
    match wireType with
    | .lengthDelimited => (block is).map Prod.snd
    | _ => .error "Unexpected wire type"
  readDomain is := do
    let p ← block is
    match (decode p.1).bind (SiteDomain.mergeFrom ⟨0, ""⟩) with
    | some d => .ok (d, p.2)
    | none => .error "Wire error"
  mergeCidr c is := do
    let p ← block is
    match decode p.1 with
    | some fs => .ok (c.mergeFrom fs, p.2)
    | none => .error "Wire error"
  regexSetError _ := none
  isMatch _ _ := false
  reverseQuery _ _ := false
  hashOrder es := es
  hashOrder_perm := @RouteWorld.perm_asListed
where
  number (is : List UInt8) : Except String (ℕ × List UInt8) :=
    match base128.decode is with
    | some p => .ok p
    | none => .error "Incorrect varint"
  block (is : List UInt8) : Except String (List UInt8 × List UInt8) := do
    let p ← number is
    if p.1 ≤ p.2.length then .ok (p.2.take p.1, p.2.drop p.1) else .error "Unexpected EOF"

namespace RouteWorld

variable {openFile : String → Except String (List UInt8)}

theorem number_encode {n : ℕ} (h : n < 2 ^ 64) (rest : List UInt8) :
    overFiles.number (base128.encode n ++ rest) = .ok (n, rest) := by
  unfold overFiles.number
  rw [base128_lawful.decode_encode h]

/-- A block is read back up to its length, and what follows is left. -/
theorem block_lenPrefixed {bs : List UInt8} (h : bs.length < maxSize) (rest : List UInt8) :
    overFiles.block (lenPrefixed bs ++ rest) = .ok (bs, rest) := by
  have h_len : bs.length < 2 ^ 64 := Nat.lt_trans h (by decide)
  have h_number : overFiles.number (lenPrefixed bs ++ rest) = .ok (bs.length, bs ++ rest) := by
    unfold lenPrefixed
    rw [List.append_assoc]
    exact number_encode h_len _
  unfold overFiles.block
  rw [h_number, ok_bind, if_pos (by rw [List.length_append]; exact Nat.le_add_right _ _),
    List.take_left, List.drop_left]

/-- The input of a world of files is what is left of the file. -/
theorem overFiles_streams : (overFiles openFile).Streams id where
  toUppercase_eq := by
    intro s h
    exact String.map_eq_empty.mp h
  rounds_gt is := Nat.lt_succ_self _
  eof is := by
    refine ⟨is, ?_, rfl⟩
    cases is <;> rfl
  readRawVarint32 := by
    intro is n rest h h_n
    obtain rfl : is = _ := h
    -- an input stream is the list of its bytes, so that each read is one of a list
    refine ⟨rest, ?_, rfl⟩
    show Except.map _ (overFiles.number _) = _
    rw [number_encode (Nat.lt_trans h_n (by decide))]
    rfl
  readRawVarint64 := by
    intro is n rest h h_n
    obtain rfl : is = _ := h
    refine ⟨rest, ?_, rfl⟩
    show Except.map _ (overFiles.number _) = _
    rw [number_encode h_n]
    rfl
  readString := by
    intro is s rest h h_s
    obtain rfl : is = _ := h
    refine ⟨rest, ?_, rfl⟩
    show (overFiles.block _ >>= _) = _
    rw [block_lenPrefixed h_s, ok_bind]
    dsimp only
    rw [fromUTF8?_utf8]
    rfl
  skipField := by
    intro is bs rest h h_bs
    obtain rfl : is = _ := h
    refine ⟨rest, ?_, rfl⟩
    show Except.map _ (overFiles.block _) = _
    rw [block_lenPrefixed h_bs]
    rfl
  readDomain := by
    intro is bs rest fs d h h_bs h_fs h_d
    obtain rfl : is = _ := h
    refine ⟨rest, ?_, rfl⟩
    show (overFiles.block _ >>= _) = _
    rw [block_lenPrefixed h_bs, ok_bind]
    dsimp only
    rw [h_fs, Option.bind_some, h_d]
    rfl
  mergeCidr := by
    intro is bs rest fs c h h_bs h_fs
    obtain rfl : is = _ := h
    refine ⟨rest, ?_, rfl⟩
    show (overFiles.block _ >>= _) = _
    rw [block_lenPrefixed h_bs, ok_bind]
    dsimp only
    rw [h_fs]
    rfl

end RouteWorld

end V2ray
