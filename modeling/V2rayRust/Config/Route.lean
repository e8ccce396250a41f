import Mathlib.Data.List.AList
import V2rayRust.Config.IpTrie
import V2rayRust.Config.Utils
import V2rayRust.Proxy.Chain

/-!
# Routing

`config/route.rs`, and the part of `Config::build_server` that makes a `Router`. The loops of
`build_router` and of the readers of geosite and geoip files only act on the `RouterBuilder`
by calls that add something to it, so they are computations that make these calls
(`ruleCalls`), and `build_router` applies the calls to the builder in order.
-/

namespace V2ray

/-! ### Rules -/

/-- `domain_matcher::MatchType` -/
inductive MatchType
  | full (b : Bool)
  | domain (b : Bool)
  | subStr (b : Bool)
  deriving DecidableEq

/-- `Box<dyn DomainMatcher>`: an `MphMatcher` or a `HybridMatcher`, and what was inserted. -/
structure DomainMatcher where
  useMph : Bool
  rules : List (String × MatchType)
  deriving DecidableEq

def DomainMatcher.new (useMph : Bool) : DomainMatcher := ⟨useMph, []⟩

def DomainMatcher.reverseInsert (m : DomainMatcher) (rule : String) (ty : MatchType) :
    DomainMatcher :=
  { m with rules := m.rules ++ [(rule, ty)] }

/-- `cidr_utils::cidr::IpCidr`: the results of `get_prefix` and `get_bits`. -/
inductive IpCidr
  | v4 (pre : BitVec 32) (bits : UInt8)
  | v6 (pre : BitVec 128) (bits : UInt8)
  deriving DecidableEq

/-- `geosite::domain::Type` -/
inductive SiteType
  | plain
  | regex
  | domain
  | full
  deriving DecidableEq

def SiteType.fromI32 : ℤ → Option SiteType
  | 0 => some plain
  | 1 => some regex
  | 2 => some domain
  | 3 => some full
  | _ => none

/-- `geosite::Domain` -/
structure SiteDomain where
  rawType : ℤ
  value : String
  deriving DecidableEq

/-- `type_()`: an unknown number is the default. -/
def SiteDomain.type (d : SiteDomain) : SiteType := (SiteType.fromI32 d.rawType).getD .plain

/-- `geoip::CIDR` -/
structure Cidr where
  ip : List UInt8
  pre : UInt32
  deriving DecidableEq

/-- `protobuf::rt::WireType` -/
inductive WireType
  | varint
  | fixed64
  | lengthDelimited
  | startGroup
  | endGroup
  | fixed32
  deriving DecidableEq

def WireType.new : ℕ → Option WireType
  | 0 => some varint
  | 1 => some fixed64
  | 2 => some lengthDelimited
  | 3 => some startGroup
  | 4 => some endGroup
  | 5 => some fixed32
  | _ => none

/-- The libraries that routing rests on: `cidr_utils`, `regex`, `domain_matcher`, the file
system, and `protobuf::CodedInputStream` over a file (`Input`). -/
structure RouteWorld where
  isIpCidr : String → Bool
  /-- `IpCidr::from_str` -/
  ipCidr : String → Option IpCidr
  toUppercase : String → String
  Input : Type
  openFile : String → Except String Input
  /-- a bound on the rounds of a reader's loop, each of which takes something off the file -/
  rounds : Input → ℕ
  eof : Input → Except String (Bool × Input)
  readRawVarint32 : Input → Except String (UInt32 × Input)
  readRawVarint64 : Input → Except String (UInt64 × Input)
  readString : Input → Except String (String × Input)
  skipField : WireType → Input → Except String Input
  /-- `read_message` at `geosite::Domain` -/
  readDomain : Input → Except String (SiteDomain × Input)
  /-- `merge_message` at `geoip::CIDR` -/
  mergeCidr : Cidr → Input → Except String (Cidr × Input)
  /-- the error of `RegexSetBuilder::new(rules).build()`, if there is one -/
  regexSetError : List String → Option String
  /-- `RegexSet::is_match` -/
  isMatch : List String → String → Bool
  /-- `reverse_query`, after `build` -/
  reverseQuery : DomainMatcher → String → Bool
  /-- the order in which a `HashMap` with these entries is iterated -/
  hashOrder : {α : Type} → List (String × α) → List (String × α)
  hashOrder_perm : ∀ {α : Type} (es : List (String × α)), (hashOrder es).Perm es

/-- A world may keep the order in which the entries are listed. -/
theorem RouteWorld.perm_asListed {α : Type} (es : List (String × α)) : es.Perm es :=
  List.Perm.refl es

/-! ### The builder -/

structure RouterBuilder where
  domainMatchers : KeepInsertOrderMap DomainMatcher
  ipMatcher : GeoIPMatcher
  regexMatchers : KeepInsertOrderMap (List String)

/-- What the loops of `build_router` do to the builder. -/
inductive RuleCall
  | addDomainRules (rule outboundTag : String) (matchType : MatchType) (useMph : Bool)
  | addRegexRules (outboundTag : String) (regexRules : List String)
  /-- `put_v4` or `put_v6` of the builder's matcher -/
  | put (call : PutCall)
  /-- the first loop of `read_geosite_file`: a matcher for the tag, if there is none -/
  | ensureMatcher (outboundTag : String) (useMph : Bool)
  /-- a domain that `read_geosite_file` takes -/
  | siteDomain (outboundTag : String) (domain : SiteDomain)
  deriving DecidableEq

namespace RouterBuilder

def new : RouterBuilder where
  domainMatchers := .new
  ipMatcher := .new
  regexMatchers := .new

def addRegexRules (b : RouterBuilder) (outboundTag : String) (regexRules : List String) :
    RouterBuilder :=
  match b.regexMatchers.getMut outboundTag (· ++ regexRules) with
  | some m => { b with regexMatchers := m }
  | none => { b with regexMatchers := b.regexMatchers.insert outboundTag regexRules }

def addDomainRules (b : RouterBuilder) (rule outboundTag : String) (matchType : MatchType)
    (useMph : Bool) : RouterBuilder :=
  match b.domainMatchers.getMut outboundTag (·.reverseInsert rule matchType) with
  | some m => { b with domainMatchers := m }
  | none =>
    let matcher := (DomainMatcher.new useMph).reverseInsert rule matchType
    { b with domainMatchers := b.domainMatchers.insert outboundTag matcher }

def ensureMatcher (b : RouterBuilder) (outboundTag : String) (useMph : Bool) : RouterBuilder :=
  if b.domainMatchers.containsKey outboundTag then b
  else { b with domainMatchers := b.domainMatchers.insert outboundTag (.new useMph) }

/-- The branch of `read_geosite_file` that takes a domain; the matcher of its tag is looked
up by `unwrap` before the type is. -/
def siteDomain (b : RouterBuilder) (outboundTag : String) (domain : SiteDomain) :
    Except Fault RouterBuilder :=
  let reverseInsert (ty : MatchType) : Except Fault RouterBuilder :=
    match b.domainMatchers.getMut outboundTag (·.reverseInsert domain.value ty) with
    | some m => .ok { b with domainMatchers := m }
    | none => .error (.unwrapNone "domain_matchers.get_mut(outbound_tag)")
  match domain.type with
  | .plain => reverseInsert (.subStr true)
  | .domain => reverseInsert (.domain true)
  | .full => reverseInsert (.full true)
  | .regex =>
    if b.domainMatchers.containsKey outboundTag then
      .ok (b.addRegexRules outboundTag [domain.value])
    else .error (.unwrapNone "domain_matchers.get_mut(outbound_tag)")

def apply (p : Profile) (b : RouterBuilder) : RuleCall → Except Fault RouterBuilder
  | .addDomainRules rule outboundTag matchType useMph =>
    .ok (b.addDomainRules rule outboundTag matchType useMph)
  | .addRegexRules outboundTag regexRules => .ok (b.addRegexRules outboundTag regexRules)
  | .put call => do return { b with ipMatcher := ← b.ipMatcher.putCall p call }
  | .ensureMatcher outboundTag useMph => .ok (b.ensureMatcher outboundTag useMph)
  | .siteDomain outboundTag domain => b.siteDomain outboundTag domain

end RouterBuilder

/-! ### Reading rules -/

def toFieldNumAndWireType (value : UInt32) : Except Stop (ℕ × WireType) :=
  match WireType.new (value.toNat % 8) with
  | none => .error (newError ("unexpected wire type: " ++ toString (value.toNat % 8)))
  | some wireType =>
    let fieldNumber := value.toNat / 8
    if fieldNumber = 0 then .error (newError "unexpected field number: 0")
    else .ok (fieldNumber, wireType)

namespace RouteWorld

variable (R : RouteWorld)

/-- A step that may fail with an I/O error: `?`. -/
def io {α : Type} (x : Except String α) : Trace RuleCall Stop α := .lift (x.mapError Stop.err)

/-- `is.eof().unwrap()` -/
def eofUnwrap (is : R.Input) : Trace RuleCall Stop (Bool × R.Input) :=
  .lift ((R.eof is).mapError fun _ => .fault (.unwrapNone "eof"))

/-- A call on the builder. It returns nothing, so what follows it does not depend on the builder. The
call is made, and may panic, where the calls are run (`RouterBuilder.run`). -/
def rule (c : RuleCall) : Trace RuleCall Stop Unit := .call c (.ok ())

def addCidrRules (outboundTag : String) (ipRules : List String) : Trace RuleCall Stop Unit :=
  ipRules.forM fun rule =>
    if R.isIpCidr rule then
      match R.ipCidr rule with
      | some (.v4 pre bits) => RouteWorld.rule (.put (.v4 pre bits outboundTag))
      | some (.v6 pre bits) => RouteWorld.rule (.put (.v6 pre bits outboundTag))
      | none => .lift (.error (.fault (.unwrapNone "IpCidr::from_str")))
    else pure ()

abbrev GeositeTags := AList fun _ : String => String

/-- The inner loop of `read_geosite_file`, from the group tag and the outbound tag that the
last round left. -/
def geositeFields (tags : GeositeTags) : ℕ → R.Input → String → Option String →
    Trace RuleCall Stop (R.Input × String × Option String)
  | 0, _, _, _ => .lift (.error (.fault .diverge))
  | n + 1, is, siteGroupTag, skipField => do
    let (done, is) ← R.eofUnwrap is
    if done then return (is, siteGroupTag, skipField)
    let (value, is) ← io (R.readRawVarint32 is)
    let (fieldNumber, wireType) ← .lift (toFieldNumAndWireType value)
    match fieldNumber with
    | 1 =>
      if siteGroupTag ≠ "" then
        let (_, is) ← io (R.readRawVarint64 is)
        geositeFields tags n is "" skipField
      else
        let (siteGroupTag, is) ← io (R.readString is)
        geositeFields tags n is siteGroupTag (tags.lookup siteGroupTag)
    | 2 =>
      match skipField with
      | none =>
        let is ← io (R.skipField wireType is)
        geositeFields tags n is siteGroupTag skipField
      | some outboundTag =>
        let (domain, is) ← io (R.readDomain is)
        rule (.siteDomain outboundTag domain)
        geositeFields tags n is siteGroupTag skipField
    | _ => geositeFields tags n is siteGroupTag skipField

/-- The outer loop of `read_geosite_file`. -/
def geositeGroups (tags : GeositeTags) : ℕ → R.Input → String → Option String →
    Trace RuleCall Stop Unit
  | 0, _, _, _ => .lift (.error (.fault .diverge))
  | n + 1, is, siteGroupTag, skipField => do
    let (done, is) ← io (R.eof is)
    if done then return
    let (_, is) ← io (R.readRawVarint32 is)
    let (_, is) ← io (R.readRawVarint64 is)
    let (is, siteGroupTag, skipField) ←
      R.geositeFields tags (R.rounds is) is siteGroupTag skipField
    geositeGroups tags n is siteGroupTag skipField

def readGeositeFile (fileName : String) (geositeTags : GeositeTags) (useMph : Bool) :
    Trace RuleCall Stop Unit := do
  (R.hashOrder (geositeTags.entries.map fun e => (e.1, e.2))).forM fun tag =>
    rule (.ensureMatcher tag.2 useMph)
  match R.openFile fileName with
  | .error e => .lift (.error (newError ("open geosite file " ++ fileName ++ " failed: " ++ e)))
  | .ok is => R.geositeGroups geositeTags (R.rounds is) is "" none

/-- `(&[u8]).get_u32()` and `get_u128()`: big-endian. -/
def getUint (w : ℕ) (bytes : List UInt8) : BitVec w :=
  BitVec.ofNat w (bytes.foldl (fun n b => n * 256 + b.toNat) 0)

/-- The put of a CIDR message, and what `get_u128` or `get_u32` leave of its `ip`. -/
def putCidr (outboundTag : String) (cidr : Cidr) : Trace RuleCall Stop Cidr :=
  if cidr.ip.length = 16 then do
    rule (.put (.v6 (getUint 128 cidr.ip) (UInt8.ofNat cidr.pre.toNat) outboundTag))
    return { cidr with ip := [] }
  else if cidr.ip.length = 4 then do
    rule (.put (.v4 (getUint 32 cidr.ip) (UInt8.ofNat cidr.pre.toNat) outboundTag))
    return { cidr with ip := [] }
  else pure cidr

/-- The inner loop of `read_geoip_file`. -/
def geoipFields (outboundTag : String) (tags : List String) : ℕ → R.Input → Cidr → String →
    Bool → Trace RuleCall Stop (R.Input × Cidr × String × Bool)
  | 0, _, _, _, _ => .lift (.error (.fault .diverge))
  | n + 1, is, cidr, countryCode, skipField => do
    let (done, is) ← io (R.eof is)
    if done then return (is, cidr, countryCode, skipField)
    let (value, is) ← io (R.readRawVarint32 is)
    let (fieldNumber, wireType) ← .lift (toFieldNumAndWireType value)
    match fieldNumber with
    | 1 =>
      if countryCode ≠ "" then
        let (_, is) ← io (R.readRawVarint64 is)
        geoipFields outboundTag tags n is cidr "" skipField
      else
        let (s, is) ← io (R.readString is)
        let countryCode := R.toUppercase s
        geoipFields outboundTag tags n is cidr countryCode (!tags.contains countryCode)
    | 2 =>
      if skipField then
        let is ← io (R.skipField wireType is)
        geoipFields outboundTag tags n is cidr countryCode skipField
      else
        let (cidr, is) ← io (R.mergeCidr cidr is)
        let cidr ← putCidr outboundTag cidr
        geoipFields outboundTag tags n is cidr countryCode skipField
    | _ => geoipFields outboundTag tags n is cidr countryCode skipField

/-- The outer loop of `read_geoip_file`. -/
def geoipEntries (outboundTag : String) (tags : List String) : ℕ → R.Input → Cidr → String →
    Bool → Trace RuleCall Stop Unit
  | 0, _, _, _, _ => .lift (.error (.fault .diverge))
  | n + 1, is, cidr, countryCode, skipField => do
    let (done, is) ← io (R.eof is)
    if done then return
    let (_, is) ← io (R.readRawVarint32 is)
    let (_, is) ← io (R.readRawVarint64 is)
    let (is, cidr, countryCode, skipField) ←
      R.geoipFields outboundTag tags (R.rounds is) is cidr countryCode skipField
    geoipEntries outboundTag tags n is cidr countryCode skipField

/-- The calls that `read_geoip_file` makes as long as none of them panics. -/
def geoipCalls (fileName outboundTag : String) (geoipTags : List String) :
    Trace RuleCall Stop Unit :=
  let tags := geoipTags.map R.toUppercase
  match R.openFile fileName with
  | .error e => .lift (.error (newError ("open geoip file " ++ fileName ++ " failed: " ++ e)))
  | .ok is => R.geoipEntries outboundTag tags (R.rounds is) is ⟨[], 0⟩ "" false

/-- The body of the first loop of `build_router`. -/
def domainRules (r : DomainRoutingRules) : Trace RuleCall Stop Unit := do
  r.fullRules.forM fun full => rule (.addDomainRules full r.tag (.full true) r.useMph)
  r.domainRules.forM fun domain => rule (.addDomainRules domain r.tag (.domain true) r.useMph)
  r.substrRules.forM fun substr => rule (.addDomainRules substr r.tag (.subStr true) r.useMph)
  rule (.addRegexRules r.tag r.regexRules)

/-- The body of the third loop of `build_router`. -/
def geositeRules (r : GeoSiteRules) : Trace RuleCall Stop Unit :=
  R.readGeositeFile r.filePath
    (r.rules.foldl (fun map rule => map.insert (R.toUppercase rule) r.tag) ∅) r.useMph

/-- The loops of `build_router`. -/
def ruleCalls (c : Config) : Trace RuleCall Stop Unit := do
  c.domainRoutingRules.forM domainRules
  c.ipRoutingRules.forM fun r => R.addCidrRules r.tag r.cidrRules
  c.geositeRules.forM R.geositeRules
  c.geoipRules.forM fun r => R.geoipCalls r.filePath r.tag r.rules

end RouteWorld

namespace RouterBuilder

/-- A call that is made on the builder. One that panics does not return, and is not counted. -/
def make (p : Profile) (b : RouterBuilder) (c : RuleCall) : Trace RuleCall Stop RouterBuilder :=
  match b.apply p c with
  | .ok b => .call c (.ok b)
  | .error e => .lift (.error (.fault e))

/-- The calls of a loop, made on a builder up to the first one that panics. What else ends the loop
comes after its calls. -/
def run (p : Profile) (b : RouterBuilder) (x : Trace RuleCall Stop Unit) :
    Trace RuleCall Stop RouterBuilder := do
  let b ← x.calls.foldlM (make p) b
  .lift x.result
  return b

/-- `read_geoip_file` -/
def readGeoipFile (R : RouteWorld) (p : Profile) (b : RouterBuilder)
    (fileName outboundTag : String) (geoipTags : List String) :
    Trace RuleCall Stop RouterBuilder :=
  b.run p (R.geoipCalls fileName outboundTag geoipTags)

/-- Calls that are made one by one have the result of the calls applied one by one. -/
theorem result_foldlM_make (p : Profile) (b : RouterBuilder) (cs : List RuleCall) :
    (cs.foldlM (make p) b).result = Stop.ofFault (cs.foldlM (apply p) b) := by
  induction cs generalizing b with
  | nil => rfl
  | cons c cs ih =>
    rw [List.foldlM_cons, List.foldlM_cons, make]
    cases h : b.apply p c with
    | ok b' => exact (congrArg Trace.result (Trace.bind_of_ok rfl _)).trans (ih b')
    | error e => rfl

/-- What a run on a builder ends with. -/
theorem result_run (p : Profile) (b : RouterBuilder) (x : Trace RuleCall Stop Unit) :
    (b.run p x).result = do
      let b ← Stop.ofFault (x.calls.foldlM (apply p) b)
      x.result
      return b := by
  rw [← result_foldlM_make]
  unfold run
  cases h : (x.calls.foldlM (make p) b).result with
  | ok b' =>
    rw [Trace.bind_of_ok h]
    cases x.result <;> rfl
  | error e => rw [Trace.bind_of_error h]; rfl

end RouterBuilder

/-! ### The router -/

structure Router where
  domainMatchers : List (String × DomainMatcher)
  ipMatcher : GeoIPMatcher
  /-- the expressions of each set -/
  regexMatchers : List (String × List String)
  defaultOutboundTag : String
  deriving DecidableEq

def RouterBuilder.build (R : RouteWorld) (b : RouterBuilder) (defaultOutboundTag : String) :
    Except Stop Router := do
  b.regexMatchers.data.forM fun e =>
    match R.regexSetError e.2 with
    | some err => .error (newError ("router builder build regex set failed:" ++ err))
    | none => .ok ()
  return { domainMatchers := b.domainMatchers.data
           ipMatcher := b.ipMatcher
           regexMatchers := R.hashOrder b.regexMatchers.data
           defaultOutboundTag }

namespace Router

def matchIp4 (r : Router) (ip4 : BitVec 32) : Except Fault String := do
  let res ← r.ipMatcher.match4 ip4
  return if res = "" then r.defaultOutboundTag else res

def matchIp6 (r : Router) (ip6 : BitVec 128) : Except Fault String := do
  let res ← r.ipMatcher.match6 ip6
  return if res = "" then r.defaultOutboundTag else res

def matchSocketAddr (r : Router) : SocketAddr → Except Fault String
  | .v4 ip4 _ => r.matchIp4 ip4
  | .v6 ip6 _ _ _ => r.matchIp6 ip6

def matchAddr (R : RouteWorld) (r : Router) : Address → Except Fault String
  | .socketAddress (.v4 ip4 _) => r.matchIp4 ip4
  | .socketAddress (.v6 ip6 _ _ _) => r.matchIp6 ip6
  | .domainNameAddress domainName _ =>
    match r.domainMatchers.find? fun e => R.reverseQuery e.2 domainName with
    | some e => .ok e.1
    | none =>
      match r.regexMatchers.find? fun e => R.isMatch e.2 domainName with
      | some e => .ok e.1
      | none => .ok r.defaultOutboundTag

end Router

/-- `build_router`: the calls that the loops make, on a new builder, and `build`. A call that
panics comes before what ends the loops. -/
def buildRouter (R : RouteWorld) (p : Profile) (c : Config) (defaultOutboundTag : String) :
    Except Stop Router := do
  let builder ← Stop.ofFault ((R.ruleCalls c).calls.foldlM (RouterBuilder.apply p) .new)
  (R.ruleCalls c).result
  builder.build R defaultOutboundTag

/-- `build_router` runs its loops on a new builder. -/
theorem buildRouter_eq_run (R : RouteWorld) (p : Profile) (c : Config)
    (defaultOutboundTag : String) : buildRouter R p c defaultOutboundTag =
      (RouterBuilder.new.run p (R.ruleCalls c)).result >>= fun b =>
        b.build R defaultOutboundTag := by
  rw [RouterBuilder.result_run]
  unfold buildRouter
  simp only [bind_assoc, pure_bind]

/-! ### The server -/

/-- `ConfigServerBuilder`, in the fields that `build_server` makes. -/
structure ConfigServerBuilder where
  router : Router
  innerMap : Config.InnerMap

/-- An empty `default_outbound` is the tag of the first outbound. -/
def Config.withDefaultOutbound (c : Config) : Config :=
  if c.defaultOutbound = "" then
    match c.outbounds.head? with
    | some name => { c with defaultOutbound := name.tag }
    | none => c
  else c

def Config.buildServer (W : World) (R : RouteWorld) (p : Profile) (c : Config) :
    Except Stop ConfigServerBuilder := do
  let c := c.withDefaultOutbound
  let innerMap ← c.buildInnerMap W
  if c.defaultOutbound ∉ innerMap then
    throw (newError "missing default outbound tag or default outbound tag is not in outbounds")
  let router ← buildRouter R p c c.defaultOutbound
  return ⟨router, innerMap⟩

namespace ConfigServerBuilder

/-- `inner_map.get(router.match_addr(addr)).unwrap()`, as the SOCKS5 and HTTP inbounds do. -/
def streamBuilder (R : RouteWorld) (s : ConfigServerBuilder) (addr : Address) :
    Except Stop ChainStreamBuilder := do
  let ob ← Stop.ofFault (s.router.matchAddr R addr)
  unwrap "inner_map.get(ob)" (s.innerMap.lookup ob)

/-- The same of `match_socket_addr`, as the dokodemo door does. -/
def streamBuilderDokodemo (s : ConfigServerBuilder) (addr : SocketAddr) :
    Except Stop ChainStreamBuilder := do
  let ob ← Stop.ofFault (s.router.matchSocketAddr addr)
  unwrap "inner_map.get(ob)" (s.innerMap.lookup ob)

end ConfigServerBuilder

end V2ray
