import Mathlib.Data.List.Nodup
import Mathlib.Tactic.Common
import V2rayRust.Config.InnerMap
import V2rayRust.Config.IpMatch
import V2rayRust.Config.Route

/-!
# What the router decides

The calls of `build_router` are a log, and the tables of the router are that log, collected:
the domain matchers and the expressions of the regex sets by tag, the CIDR rules in the
tries. `Holds` is this relation for the builder; every call keeps it (`holds_apply`), and
`decides` reads the answer for an address off the log.

Where the tags of the answers come from does not need the tables: every tag in the builder
is one that a call named (`TagsFrom`).
-/

namespace V2ray

open KeepInsertOrderMap GeoIPMatcher

/-! ### The log -/

/-- How a geosite domain that is no expression is matched. -/
def SiteType.matchType : SiteType → Option MatchType
  | plain => some (.subStr true)
  | regex => none
  | domain => some (.domain true)
  | full => some (.full true)

/-- What is inserted into a domain matcher: the kind of matcher to make if there is none,
and the rules. -/
abbrev DomainEntry := Bool × List (String × MatchType)

/-- The matcher that a sequence of entries makes: the first one makes it. -/
def DomainMatcher.ofEntries (es : List DomainEntry) : DomainMatcher where
  useMph := (es.head?.map Prod.fst).getD false
  rules := es.flatMap Prod.snd

/-- The tag of a put. -/
def PutCall.tag : PutCall → String
  | v4 _ _ outbound => outbound
  | v6 _ _ outbound => outbound

namespace RuleCall

/-- The tag that a call names. -/
def tag : RuleCall → String
  | addDomainRules _ outboundTag _ _ => outboundTag
  | addRegexRules outboundTag _ => outboundTag
  | put c => c.tag
  | ensureMatcher outboundTag _ => outboundTag
  | siteDomain outboundTag _ => outboundTag

def asPut : RuleCall → Option PutCall
  | put c => some c
  | _ => none

def asDomainEntry : RuleCall → Option (String × DomainEntry)
  | addDomainRules rule outboundTag matchType useMph =>
    some (outboundTag, useMph, [(rule, matchType)])
  | ensureMatcher outboundTag useMph => some (outboundTag, useMph, [])
  | siteDomain outboundTag domain =>
    domain.type.matchType.map fun ty => (outboundTag, false, [(domain.value, ty)])
  | _ => none

def asRegexEntry : RuleCall → Option (String × List String)
  | addRegexRules outboundTag regexRules => some (outboundTag, regexRules)
  | siteDomain outboundTag domain =>
    if domain.type.matchType = none then some (outboundTag, [domain.value]) else none
  | _ => none

theorem asDomainEntry_siteDomain (tag : String) (d : SiteDomain) :
    (siteDomain tag d).asDomainEntry =
      d.type.matchType.map fun ty => (tag, false, [(d.value, ty)]) := rfl

theorem asRegexEntry_siteDomain (tag : String) (d : SiteDomain) :
    (siteDomain tag d).asRegexEntry =
      if d.type.matchType = none then some (tag, [d.value]) else none := rfl

end RuleCall

/-- The CIDR rules of the calls, in order. -/
def putsOf (calls : List RuleCall) : List PutCall := calls.filterMap RuleCall.asPut

/-- The domain matchers: one for each tag, in the order of the tags' first rules. -/
def domainTable (calls : List RuleCall) : List (String × DomainMatcher) :=
  (grouped (calls.filterMap RuleCall.asDomainEntry)).map fun g => (g.1, .ofEntries g.2)

/-- The expressions of the regex sets, by tag. -/
def regexTable (calls : List RuleCall) : List (String × List String) :=
  (grouped (calls.filterMap RuleCall.asRegexEntry)).map fun g => (g.1, g.2.flatten)

/-- The empty tag stands for no rule. -/
def orDefault (default tag : String) : String := if tag = "" then default else tag

/-- **The tag that a log of rules gives an address.** An IPv4 address has that of its
longest-prefix match, an IPv6 address that of the address shifted left by 96. A domain name
has the first tag of the domain table that matches it, and if there is none the first tag of
the regex sets that does, in the order of their hash map. -/
def decides (R : RouteWorld) (calls : List RuleCall) (default : String) : Address → String
  | .socketAddress (.v4 ip _) =>
    orDefault default
      (CidrRule.lpm ((putsOf calls).filterMap (PutCall.rule4 (prefixLen 32))) ip)
  | .socketAddress (.v6 ip _ _ _) =>
    orDefault default
      (CidrRule.lpm ((putsOf calls).filterMap (PutCall.rule6 (prefixLen 128))) (ip <<< 96))
  | .domainNameAddress name _ =>
    ((((domainTable calls).find? fun e => R.reverseQuery e.2 name).map Prod.fst).or
      (((R.hashOrder (regexTable calls)).find? fun e => R.isMatch e.2 name).map Prod.fst)).getD
      default

/-! ### The builder holds the log -/

section Builder

variable {p : Profile} {calls : List RuleCall} {b b' : RouterBuilder}

/-- The builder is what the calls make of a new one. -/
structure Holds (p : Profile) (calls : List RuleCall) (b : RouterBuilder) : Prop where
  puts : GeoIPMatcher.new.puts p (putsOf calls) = .ok b.ipMatcher
  domains : Collects DomainMatcher.ofEntries (calls.filterMap RuleCall.asDomainEntry)
    b.domainMatchers
  regexes : Collects List.flatten (calls.filterMap RuleCall.asRegexEntry) b.regexMatchers

theorem holds_new (p : Profile) : Holds p [] .new where
  puts := rfl
  domains := collects_new _
  regexes := collects_new _

theorem DomainMatcher.ofEntries_concat {es : List DomainEntry} (h : es ≠ []) (e : DomainEntry) :
    ofEntries (es ++ [e]) = ⟨(ofEntries es).useMph, (ofEntries es).rules ++ e.2⟩ := by
  obtain ⟨e', es', rfl⟩ := List.exists_cons_of_ne_nil h
  simp [ofEntries]

/-- A rule for a tag that may be new. -/
theorem Collects.addDomain {es : List (String × DomainEntry)}
    {m : KeepInsertOrderMap DomainMatcher} (h : Collects DomainMatcher.ofEntries es m)
    (rule tag : String) (ty : MatchType) (useMph : Bool) :
    (∃ m', m.getMut tag (·.reverseInsert rule ty) = some m' ∧
        Collects DomainMatcher.ofEntries (es ++ [(tag, useMph, [(rule, ty)])]) m') ∨
      m.getMut tag (·.reverseInsert rule ty) = none ∧
        Collects DomainMatcher.ofEntries (es ++ [(tag, useMph, [(rule, ty)])])
          (m.insert tag ((DomainMatcher.new useMph).reverseInsert rule ty)) := by
  by_cases h_mem : tag ∈ m.keys
  · left
    exact h.getMut h_mem fun bs h_ne =>
      (DomainMatcher.ofEntries_concat h_ne (useMph, [(rule, ty)])).symm
  · right
    exact ⟨m.getMut_of_notMem h_mem _, h.insert h_mem _⟩

/-- Expressions for a tag that may be new. -/
theorem Holds.addRegexRules {log : List (String × List String)}
    (h : Collects List.flatten log b.regexMatchers) (tag : String) (rules : List String) :
    Collects List.flatten (log ++ [(tag, rules)]) (b.addRegexRules tag rules).regexMatchers ∧
      (b.addRegexRules tag rules).domainMatchers = b.domainMatchers ∧
      (b.addRegexRules tag rules).ipMatcher = b.ipMatcher := by
  unfold RouterBuilder.addRegexRules
  by_cases h_mem : tag ∈ b.regexMatchers.keys
  · obtain ⟨m', h_get, h_m'⟩ := Collects.getMut h h_mem (b := rules) (f := (· ++ rules))
      fun bs _ => by simp
    rw [h_get]
    exact ⟨h_m', rfl, rfl⟩
  · rw [b.regexMatchers.getMut_of_notMem h_mem]
    have h_insert := Collects.insert h h_mem rules
    rw [List.flatten_singleton] at h_insert
    exact ⟨h_insert, rfl, rfl⟩

theorem filterMap_concat {α β : Type} (f : α → Option β) (as : List α) (a : α) :
    (as ++ [a]).filterMap f = as.filterMap f ++ (f a).toList := by
  rw [List.filterMap_append]
  cases h : f a <;> simp [h]

/-- A log that a call does not write to. -/
theorem Collects.of_none {V β : Type} {val : List β → V} {m : KeepInsertOrderMap V}
    {f : RuleCall → Option (String × β)} (h : Collects val (calls.filterMap f) m)
    {call : RuleCall} (h_none : f call = none) :
    Collects val ((calls ++ [call]).filterMap f) m := by
  rw [filterMap_concat, h_none, Option.toList_none, List.append_nil]
  exact h

/-- A log that a call writes to. -/
theorem Collects.of_some {V β : Type} {val : List β → V} {m : KeepInsertOrderMap V}
    {f : RuleCall → Option (String × β)} {call : RuleCall} {e : String × β}
    (h_some : f call = some e) (h : Collects val (calls.filterMap f ++ [e]) m) :
    Collects val ((calls ++ [call]).filterMap f) m := by
  rw [filterMap_concat, h_some, Option.toList_some]
  exact h

/-- A call that is not a put leaves the matcher as it is. -/
theorem Holds.puts_of_none (h : Holds p calls b) {call : RuleCall}
    (h_none : call.asPut = none) :
    GeoIPMatcher.new.puts p (putsOf (calls ++ [call])) = .ok b.ipMatcher := by
  have h_same : putsOf (calls ++ [call]) = putsOf calls := by
    unfold putsOf
    rw [filterMap_concat, h_none, Option.toList_none, List.append_nil]
  rw [h_same]
  exact h.puts

/-- A geosite domain that is no expression goes into the matcher of its tag. -/
theorem Holds.siteRule (h : Holds p calls b) {tag : String} {d : SiteDomain} {ty : MatchType}
    (h_ty : d.type.matchType = some ty) {m : KeepInsertOrderMap DomainMatcher}
    (h_get : b.domainMatchers.getMut tag (·.reverseInsert d.value ty) = some m) :
    Holds p (calls ++ [.siteDomain tag d]) { b with domainMatchers := m } where
  puts := h.puts_of_none rfl
  domains := by
    have h_entry : (RuleCall.siteDomain tag d).asDomainEntry =
        some (tag, false, [(d.value, ty)]) := by
      rw [RuleCall.asDomainEntry_siteDomain, h_ty, Option.map_some]
    refine Collects.of_some h_entry ?_
    rcases Collects.addDomain h.domains d.value tag ty false with ⟨m', h_m', h_c⟩ | ⟨h_none, _⟩
    · rw [h_get] at h_m'
      cases h_m'
      exact h_c
    · rw [h_get] at h_none
      cases h_none
  regexes := by
    refine Collects.of_none h.regexes ?_
    rw [RuleCall.asRegexEntry_siteDomain, h_ty]
    exact if_neg (by simp)

/-- A geosite expression goes into the list of its tag. -/
theorem Holds.siteRegex (h : Holds p calls b) {tag : String} {d : SiteDomain}
    (h_ty : d.type.matchType = none) :
    Holds p (calls ++ [.siteDomain tag d]) (b.addRegexRules tag [d.value]) := by
  obtain ⟨h_rx, h_dom, h_ip⟩ := Holds.addRegexRules h.regexes tag [d.value]
  refine ⟨?_, ?_, ?_⟩
  · rw [h_ip]
    exact h.puts_of_none rfl
  · rw [h_dom]
    refine Collects.of_none h.domains ?_
    rw [RuleCall.asDomainEntry_siteDomain, h_ty, Option.map_none]
  · refine Collects.of_some ?_ h_rx
    rw [RuleCall.asRegexEntry_siteDomain, h_ty]
    exact if_pos rfl

/-- The rule of a matcher that is there. -/
theorem eq_of_ruleMatch {tag : String} {d : SiteDomain} {ty : MatchType}
    (h : (match b.domainMatchers.getMut tag (·.reverseInsert d.value ty) with
      | some m => (.ok { b with domainMatchers := m } : Except Fault RouterBuilder)
      | none => .error (.unwrapNone "domain_matchers.get_mut(outbound_tag)")) = .ok b') :
    ∃ m, b.domainMatchers.getMut tag (·.reverseInsert d.value ty) = some m ∧
      b' = { b with domainMatchers := m } := by
  cases h_get : b.domainMatchers.getMut tag (·.reverseInsert d.value ty) with
  | none => rw [h_get] at h; cases h
  | some m => rw [h_get] at h; cases h; exact ⟨m, rfl, rfl⟩

/-- What `read_geosite_file` does with a domain, by its type. -/
theorem siteDomain_cases {tag : String} {d : SiteDomain} (h : b.siteDomain tag d = .ok b') :
    (∃ ty m, d.type.matchType = some ty ∧
      b.domainMatchers.getMut tag (·.reverseInsert d.value ty) = some m ∧
      b' = { b with domainMatchers := m }) ∨
    d.type.matchType = none ∧ b' = b.addRegexRules tag [d.value] := by
  unfold RouterBuilder.siteDomain at h
  cases h_type : d.type with
  | regex =>
    -- an expression goes to the regex sets, and is checked there
    right
    rw [h_type] at h
    refine ⟨rfl, ?_⟩
    dsimp only at h
    split at h
    · exact (Except.ok.inj h).symm
    · cases h
  | plain | domain | full =>
    -- any other type is a rule of the matcher for the tag
    left
    rw [h_type] at h
    obtain ⟨m, h_m, h_b⟩ := eq_of_ruleMatch h
    exact ⟨_, m, rfl, h_m, h_b⟩

/-- **Step lemma.** -/
theorem holds_apply (h : Holds p calls b) {call : RuleCall} (h_app : b.apply p call = .ok b') :
    Holds p (calls ++ [call]) b' := by
  -- one case for each kind of call; what it does not touch it leaves in all three tables
  cases call with
  | addDomainRules rule tag ty useMph =>
    cases h_app
    unfold RouterBuilder.addDomainRules
    rcases Collects.addDomain h.domains rule tag ty useMph with ⟨m', h_get, h_c⟩ | ⟨h_get, h_c⟩
    · rw [h_get]
      exact ⟨h.puts_of_none rfl, Collects.of_some rfl h_c,
        Collects.of_none h.regexes rfl⟩
    · rw [h_get]
      exact ⟨h.puts_of_none rfl, Collects.of_some rfl h_c,
        Collects.of_none h.regexes rfl⟩
  | addRegexRules tag rules =>
    cases h_app
    obtain ⟨h_rx, h_dom, h_ip⟩ := Holds.addRegexRules h.regexes tag rules
    refine ⟨?_, ?_, Collects.of_some rfl h_rx⟩
    · rw [h_ip]
      exact h.puts_of_none rfl
    · rw [h_dom]
      exact Collects.of_none h.domains rfl
  | put c =>
    obtain ⟨m, h_put, h_b⟩ := bind_eq_ok.mp h_app
    cases h_b
    refine ⟨?_, Collects.of_none h.domains rfl, Collects.of_none h.regexes rfl⟩
    have h_puts : putsOf (calls ++ [.put c]) = putsOf calls ++ [c] := filterMap_concat _ _ _
    rw [h_puts, puts_concat, h.puts]
    exact h_put
  | ensureMatcher tag useMph =>
    cases h_app
    unfold RouterBuilder.ensureMatcher
    split
    · next h_mem =>
      have h_mem := b.domainMatchers.containsKey_iff.mp h_mem
      refine ⟨h.puts_of_none rfl, ?_, Collects.of_none h.regexes rfl⟩
      refine Collects.of_some rfl (Collects.absorb h.domains h_mem fun bs h_ne => ?_)
      rw [DomainMatcher.ofEntries_concat h_ne, List.append_nil]
    · next h_mem =>
      have h_mem := fun hk => h_mem (b.domainMatchers.containsKey_iff.mpr hk)
      exact ⟨h.puts_of_none rfl,
        Collects.of_some rfl (Collects.insert h.domains h_mem (useMph, [])),
        Collects.of_none h.regexes rfl⟩
  | siteDomain tag d =>
    rcases siteDomain_cases h_app with ⟨ty, m, h_ty, h_get, rfl⟩ | ⟨h_ty, rfl⟩
    · exact h.siteRule h_ty h_get
    · exact h.siteRegex h_ty

/-- **Run lemma.** -/
theorem holds_foldlM {rest : List RuleCall} (h : Holds p calls b)
    (h_run : rest.foldlM (RouterBuilder.apply p) b = .ok b') : Holds p (calls ++ rest) b' := by
  refine foldlM_induction (P := fun rest b => Holds p (calls ++ rest) b) ?_ ?_ h_run
  · rw [List.append_nil]
    exact h
  · intro rest b call b' ih h_app
    rw [← List.append_assoc]
    exact holds_apply ih h_app

end Builder

/-! ### Where the tags come from -/

section Tags

variable {p : Profile} {calls : List RuleCall} {b : RouterBuilder}

/-- A put brings at most its own tag. -/
theorem mem_outbound_of_putCall {m m' : GeoIPMatcher} {c : PutCall}
    (h : m.putCall p c = .ok m') {t : String} (ht : t ∈ m'.outbound) :
    t ∈ m.outbound ∨ t = c.tag := by
  -- a tag that is not there yet is put behind the others
  have h_pos : ∀ tag, t ∈ (m.getOutboundPos tag).2.outbound → t ∈ m.outbound ∨ t = tag := by
    intro tag h_mem
    unfold getOutboundPos at h_mem
    cases h_find : m.outbound.findIdx? (· == tag) with
    | some i => rw [h_find] at h_mem; exact Or.inl h_mem
    | none =>
      rw [h_find] at h_mem
      exact (List.mem_append.mp h_mem).imp id List.mem_singleton.mp
  cases c with
  | v4 ip pre tag =>
    obtain ⟨ip', _, h⟩ := bind_eq_ok.mp h
    obtain ⟨trie, _, h⟩ := bind_eq_ok.mp h
    cases h
    exact h_pos tag ht
  | v6 ip pre tag =>
    obtain ⟨ip', _, h⟩ := bind_eq_ok.mp h
    obtain ⟨trie, _, h⟩ := bind_eq_ok.mp h
    cases h
    exact h_pos tag ht

/-- The tag vector only holds tags of puts. -/
theorem mem_outbound_of_puts {m m' : GeoIPMatcher} {cs : List PutCall}
    (h : m.puts p cs = .ok m') {t : String} (ht : t ∈ m'.outbound) :
    t ∈ m.outbound ∨ ∃ c ∈ cs, c.tag = t := by
  induction cs generalizing m with
  | nil =>
    obtain rfl : m = m' := Except.ok.inj h
    exact Or.inl ht
  | cons c cs ih =>
    rw [puts_cons] at h
    obtain ⟨m₁, h_put, h⟩ := bind_eq_ok.mp h
    rcases ih h with h_mem | ⟨d, h_d, h_tag⟩
    · exact (mem_outbound_of_putCall h_put h_mem).imp id fun h_eq =>
        ⟨c, List.mem_cons_self, h_eq.symm⟩
    · exact Or.inr ⟨d, List.mem_cons_of_mem c h_d, h_tag⟩

/-- A lookup answers with no tag or with one of the vector, whatever the tries hold. -/
theorem mem_outbound_of_index {m : GeoIPMatcher} {x : Except Fault (Option (BitVec 32))}
    {t : String}
    (h : (do match ← x with
      | some c => index m.outbound (asUsize c)
      | none => return "") = .ok t) : t = "" ∨ t ∈ m.outbound := by
  obtain ⟨o, _, h⟩ := bind_eq_ok.mp h
  cases o with
  | none => exact Or.inl (Except.ok.inj h).symm
  | some c => exact Or.inr (List.mem_of_getElem? (getElem?_of_index h))

theorem tag_of_domainEntry {call : RuleCall} {e : String × DomainEntry}
    (h : call.asDomainEntry = some e) : call.tag = e.1 := by
  cases call with
  | addDomainRules rule tag ty useMph => cases h; rfl
  | addRegexRules tag rules => cases h
  | put c => cases h
  | ensureMatcher tag useMph => cases h; rfl
  | siteDomain tag d =>
    rw [RuleCall.asDomainEntry_siteDomain, Option.map_eq_some_iff] at h
    obtain ⟨ty, _, rfl⟩ := h
    rfl

theorem tag_of_regexEntry {call : RuleCall} {e : String × List String}
    (h : call.asRegexEntry = some e) : call.tag = e.1 := by
  cases call with
  | addRegexRules tag rules => cases h; rfl
  | siteDomain tag d =>
    rw [RuleCall.asRegexEntry_siteDomain] at h
    split at h
    · cases h; rfl
    · cases h
  | addDomainRules | put | ensureMatcher => cases h

/-- A tag of a table is the tag of a call. -/
theorem exists_call_of_mem_grouped {β γ : Type} {f : RuleCall → Option (String × β)}
    (hf : ∀ {call e}, f call = some e → call.tag = e.1) {val : List β → γ} {e : String × γ}
    (h : e ∈ (grouped (calls.filterMap f)).map fun g => (g.1, val g.2)) :
    ∃ call ∈ calls, call.tag = e.1 := by
  obtain ⟨g, h_g, rfl⟩ := List.mem_map.mp h
  obtain ⟨k, h_k, rfl⟩ := List.mem_map.mp h_g
  obtain ⟨x, h_x⟩ := mem_keysOf.mp h_k
  obtain ⟨call, h_call, h_entry⟩ := List.mem_filterMap.mp h_x
  exact ⟨call, h_call, hf h_entry⟩

end Tags

/-! ### The server -/

namespace Config

/-- The tag of the outbound that takes what no rule decides. -/
def defaultTag (c : Config) : String := c.withDefaultOutbound.defaultOutbound

/-- The keys of the inner map are the tags of the outbounds. -/
theorem mem_innerMap_iff {W : World} {c : Config} {map : InnerMap}
    (h : c.buildInnerMap W = .ok map) {tag : String} :
    tag ∈ map ↔ tag ∈ c.outbounds.map Outbounds.tag := by
  refine innerMap_induction (P := fun outs map => tag ∈ map ↔ tag ∈ outs.map Outbounds.tag)
    ?_ ?_ h
  · exact iff_of_false (AList.notMem_empty tag) List.not_mem_nil
  · intro outs m out b ih _
    rw [AList.mem_insert, ih, List.map_append, List.mem_append, List.map_singleton,
      List.mem_singleton, or_comm]

variable {W : World} {R : RouteWorld} {p : Profile} {c : Config} {s : ConfigServerBuilder}

theorem withDefaultOutbound_eq (c : Config) :
    c.withDefaultOutbound = { c with defaultOutbound := c.defaultTag } := by
  unfold defaultTag withDefaultOutbound
  split
  · split <;> rfl
  · rfl

/-- What `build_server` accepts, and what it makes: `b` is the builder that `build` took. -/
structure Serves (R : RouteWorld) (p : Profile) (c : Config) (s : ConfigServerBuilder)
    (b : RouterBuilder) : Prop where
  holds : Holds p (R.ruleCalls c).calls b
  router_eq : s.router = ⟨b.domainMatchers.data, b.ipMatcher,
    R.hashOrder b.regexMatchers.data, c.defaultTag⟩
  mem_iff : ∀ {tag}, tag ∈ s.innerMap ↔ tag ∈ c.outbounds.map Outbounds.tag
  default_mem : c.defaultTag ∈ s.innerMap

/-- A server that has been built serves its configuration. -/
theorem serves_of_buildServer (h : c.buildServer W R p = .ok s) : ∃ b, Serves R p c s b := by
  unfold buildServer at h
  rw [withDefaultOutbound_eq] at h
  obtain ⟨map, h_map, h⟩ := bind_eq_ok.mp h
  dsimp only at h
  split at h
  · cases h
  next h_default =>
  obtain ⟨router, h_router, h⟩ := bind_eq_ok.mp h
  cases h
  obtain ⟨b, h_b, h_build⟩ := bind_eq_ok.mp h_router
  obtain ⟨_, _, h_build⟩ := bind_eq_ok.mp h_build
  obtain ⟨_, _, h_build⟩ := bind_eq_ok.mp h_build
  cases h_build
  -- the builder comes from the calls, and building it checks it without changing it
  have h_run := holds_foldlM (holds_new p) (ofFault_eq_ok.mp h_b)
  rw [List.nil_append] at h_run
  exact ⟨b, h_run, rfl, mem_innerMap_iff h_map, not_not.mp h_default⟩

end Config

open Config

section Server

variable {W : World} {R : RouteWorld} {p : Profile} {c : Config} {s : ConfigServerBuilder}
  {b : RouterBuilder}

theorem Router.matchSocketAddr_eq (r : Router) (addr : SocketAddr) :
    r.matchSocketAddr addr = r.matchAddr R (.socketAddress addr) := by
  cases addr <;> rfl

/-- An empty answer of the CIDR matcher is replaced by the default. -/
theorem orDefault_of_bind {default : String} {x : Except Fault String} {tag : String}
    (h : (do let res ← x; return if res = "" then default else res) = .ok tag) :
    tag = default ∨ x = .ok tag ∧ tag ≠ "" := by
  obtain ⟨res, h_res, h⟩ := bind_eq_ok.mp h
  have h_tag : (if res = "" then default else res) = tag := Except.ok.inj h
  split at h_tag
  · exact Or.inl h_tag.symm
  · next h_ne =>
    subst h_tag
    exact Or.inr ⟨h_res, h_ne⟩

/-- **An answer of the router** is the default tag or the tag of some rule. -/
theorem Config.Serves.tag_of_matchAddr (h : Serves R p c s b) {addr : Address} {tag : String}
    (h_match : s.router.matchAddr R addr = .ok tag) :
    tag = c.defaultTag ∨ ∃ call ∈ (R.ruleCalls c).calls, call.tag = tag := by
  rw [h.router_eq] at h_match
  -- a tag in the vector of the matcher was put there
  have h_vec : tag ∈ b.ipMatcher.outbound →
      ∃ call ∈ (R.ruleCalls c).calls, call.tag = tag := by
    intro h_mem
    rcases mem_outbound_of_puts h.holds.puts h_mem with h_new | ⟨d, h_d, h_tag⟩
    · cases h_new
    · obtain ⟨call, h_call, h_put⟩ := List.mem_filterMap.mp h_d
      cases call with
      | put c =>
        obtain rfl : c = d := Option.some.inj h_put
        exact ⟨.put c, h_call, h_tag⟩
      | addDomainRules | addRegexRules | ensureMatcher | siteDomain => cases h_put
  cases addr with
  | socketAddress addr =>
    cases addr with
    | v4 ip port =>
      refine (orDefault_of_bind h_match).imp id fun h_ip => ?_
      exact h_vec ((mem_outbound_of_index h_ip.1).resolve_left h_ip.2)
    | v6 ip port flowinfo scopeId =>
      refine (orDefault_of_bind h_match).imp id fun h_ip => ?_
      exact h_vec ((mem_outbound_of_index h_ip.1).resolve_left h_ip.2)
  | domainNameAddress name port =>
    unfold Router.matchAddr at h_match
    dsimp only at h_match
    -- the domain tables are asked first, and then the regex sets
    split at h_match
    · next e h_find =>
      cases h_match
      have h_mem := List.mem_of_find?_eq_some h_find
      rw [h.holds.domains] at h_mem
      exact Or.inr (exists_call_of_mem_grouped tag_of_domainEntry h_mem)
    · split at h_match
      · next e h_find =>
        cases h_match
        have h_mem := (R.hashOrder_perm _).mem_iff.mp (List.mem_of_find?_eq_some h_find)
        rw [h.holds.regexes] at h_mem
        exact Or.inr (exists_call_of_mem_grouped tag_of_regexEntry h_mem)
      · exact Or.inl (Except.ok.inj h_match).symm

/-- **What the router answers**, when the tries have room for the rules. -/
theorem Config.Serves.matchAddr_eq (h : Serves R p c s b)
    (h_fit : RunFits p (fun m call => Fits4 m call ∧ Fits6 m call) GeoIPMatcher.new
      (putsOf (R.ruleCalls c).calls)) (addr : Address) :
    s.router.matchAddr R addr = .ok (decides R (R.ruleCalls c).calls c.defaultTag addr) := by
  rw [h.router_eq]
  cases addr with
  -- an address is looked up in its trie only, which holds what was put
  | socketAddress addr =>
    cases addr with
    | v4 ip port =>
      have h_stores := stores4_of_puts GeoIPMatcher.valid_new (stores_new (by decide))
        (h_fit.mono fun _ _ hf => hf.1) h.holds.puts
      show Router.matchIp4 _ ip = _
      unfold Router.matchIp4
      rw [match4_of_stores h_stores]
      rfl
    | v6 ip port flowinfo scopeId =>
      have h_stores := stores6_of_puts GeoIPMatcher.valid_new (stores_new (by decide))
        (h_fit.mono fun _ _ hf => hf.2) h.holds.puts
      show Router.matchIp6 _ ip = _
      unfold Router.matchIp6
      rw [match6_of_stores h_stores]
      rfl
  | domainNameAddress name port =>
    have h_domains : b.domainMatchers.data = domainTable (R.ruleCalls c).calls := h.holds.domains
    have h_regexes : b.regexMatchers.data = regexTable (R.ruleCalls c).calls := h.holds.regexes
    unfold Router.matchAddr decides
    rw [h_domains, h_regexes]
    dsimp only
    split
    · next e h_find => rw [h_find]; rfl
    · next h_none =>
      rw [h_none]
      split
      · next e h_find => rw [h_find]; rfl
      · next h_none => rw [h_none]; rfl

/-- A chain is found exactly if the tag that is decided is in the inner map. -/
theorem ConfigServerBuilder.streamBuilder_isOk_iff {addr : Address} :
    (∃ x, s.streamBuilder R addr = .ok x) ↔
      ∃ tag, s.router.matchAddr R addr = .ok tag ∧ tag ∈ s.innerMap := by
  unfold streamBuilder
  constructor
  · rintro ⟨x, h⟩
    obtain ⟨tag, h_tag, h⟩ := bind_eq_ok.mp h
    refine ⟨tag, ofFault_eq_ok.mp h_tag, AList.lookup_isSome.mp ?_⟩
    cases h_look : s.innerMap.lookup tag with
    | none => rw [h_look] at h; cases h
    | some y => rfl
  · rintro ⟨tag, h_tag, h_mem⟩
    obtain ⟨x, h_x⟩ := Option.isSome_iff_exists.mp (AList.lookup_isSome.mpr h_mem)
    refine ⟨x, bind_eq_ok.mpr ⟨tag, ofFault_eq_ok.mpr h_tag, ?_⟩⟩
    rw [h_x]
    rfl

theorem ConfigServerBuilder.streamBuilderDokodemo_eq {addr : SocketAddr} :
    s.streamBuilderDokodemo addr = s.streamBuilder R (.socketAddress addr) := by
  unfold streamBuilderDokodemo streamBuilder
  rw [Router.matchSocketAddr_eq]

end Server

/-! ### Missing outbounds -/

/-- **Routing to an outbound.** When every rule names an outbound, so does every answer of
the router. In general an address is answered with the tag of an outbound exactly if the
rules decide it so, the tries having room for them; and exactly then the inbounds find their
stream builder. -/
theorem matchAddr_outbound_iff {W : World} {R : RouteWorld} {p : Profile} {c : Config}
    {s : ConfigServerBuilder} (h : c.buildServer W R p = .ok s) :
    ((∀ call ∈ (R.ruleCalls c).calls, call.tag ∈ c.outbounds.map Outbounds.tag) →
      (∀ addr tag, s.router.matchAddr R addr = .ok tag → tag ∈ s.innerMap) ∧
      ∀ addr tag, s.router.matchSocketAddr addr = .ok tag → tag ∈ s.innerMap) ∧
    (RunFits p (fun m call => Fits4 m call ∧ Fits6 m call) GeoIPMatcher.new
        (putsOf (R.ruleCalls c).calls) →
      (∀ addr,
        ((∃ tag, s.router.matchAddr R addr = .ok tag ∧ tag ∈ s.innerMap) ↔
          decides R (R.ruleCalls c).calls c.defaultTag addr ∈
            c.outbounds.map Outbounds.tag) ∧
        ((∃ x, s.streamBuilder R addr = .ok x) ↔
          decides R (R.ruleCalls c).calls c.defaultTag addr ∈
            c.outbounds.map Outbounds.tag)) ∧
      ∀ addr,
        ((∃ tag, s.router.matchSocketAddr addr = .ok tag ∧ tag ∈ s.innerMap) ↔
          decides R (R.ruleCalls c).calls c.defaultTag (.socketAddress addr) ∈
            c.outbounds.map Outbounds.tag) ∧
        ((∃ x, s.streamBuilderDokodemo addr = .ok x) ↔
          decides R (R.ruleCalls c).calls c.defaultTag (.socketAddress addr) ∈
            c.outbounds.map Outbounds.tag)) := by
  obtain ⟨b, h_serves⟩ := Config.serves_of_buildServer h
  constructor
  · -- a tag of the map is the default tag, or that of a rule
    intro h_tags
    have h_all : ∀ addr tag, s.router.matchAddr R addr = .ok tag → tag ∈ s.innerMap := by
      intro addr tag h_match
      rcases h_serves.tag_of_matchAddr h_match with rfl | ⟨call, h_call, rfl⟩
      · exact h_serves.default_mem
      · exact h_serves.mem_iff.mpr (h_tags call h_call)
    exact ⟨h_all, fun addr tag h_match =>
      h_all (.socketAddress addr) tag (Router.matchSocketAddr_eq s.router addr ▸ h_match)⟩
  · intro h_fit
    have h_addr : ∀ addr,
        (∃ tag, s.router.matchAddr R addr = .ok tag ∧ tag ∈ s.innerMap) ↔
          decides R (R.ruleCalls c).calls c.defaultTag addr ∈ c.outbounds.map Outbounds.tag := by
      intro addr
      rw [h_serves.matchAddr_eq h_fit addr, ← h_serves.mem_iff]
      constructor
      · rintro ⟨tag, h_tag, h_mem⟩
        exact Except.ok.inj h_tag ▸ h_mem
      · intro h_mem
        exact ⟨_, rfl, h_mem⟩
    refine ⟨fun addr => ⟨h_addr addr, ?_⟩, fun addr => ⟨?_, ?_⟩⟩
    · rw [ConfigServerBuilder.streamBuilder_isOk_iff]
      exact h_addr addr
    · rw [Router.matchSocketAddr_eq (R := R)]
      exact h_addr (.socketAddress addr)
    · rw [ConfigServerBuilder.streamBuilderDokodemo_eq (R := R),
        ConfigServerBuilder.streamBuilder_isOk_iff]
      exact h_addr (.socketAddress addr)

/-- No files, and one CIDR that can be read. -/
def RouteWorld.offline : RouteWorld where
  isIpCidr s := s = "10.0.0.0/8"
  ipCidr s := if s = "10.0.0.0/8" then some (.v4 0x0A000000 8) else none
  toUppercase := String.toUpper
  Input := Empty
  openFile _ := .error "No such file or directory (os error 2)"
  rounds := Empty.elim
  eof := Empty.elim
  readRawVarint32 := Empty.elim
  readRawVarint64 := Empty.elim
  readString := Empty.elim
  skipField _ := Empty.elim
  readDomain := Empty.elim
  mergeCidr _ := Empty.elim
  regexSetError _ := none
  isMatch _ _ := false
  reverseQuery m name := m.rules.any fun r => r.1 = name
  hashOrder es := es
  hashOrder_perm := @RouteWorld.perm_asListed

/-- One direct outbound, and a rule that sends `10.0.0.0/8` to `tag`. -/
def Config.tenTo (tag : String) : Config where
  direct := [⟨"direct"⟩]
  ipRoutingRules := [⟨tag, ["10.0.0.0/8"]⟩]
  outbounds := [⟨["direct"], "direct"⟩]

/-- One direct outbound and no rules: every address finds a chain. -/
theorem matchAddr_outbound_iff_direct :
    ∃ s, (Config.tenTo "direct").buildServer .calm .offline .debug = .ok s ∧
      (∀ addr tag, s.router.matchAddr .offline addr = .ok tag → tag ∈ s.innerMap) ∧
      ∀ addr, (∃ x, s.streamBuilder .offline addr = .ok x) ↔
        decides .offline (RouteWorld.offline.ruleCalls (Config.tenTo "direct")).calls "direct"
          addr ∈ ["direct"] := by
  have h : ∃ s, (Config.tenTo "direct").buildServer .calm .offline .debug = .ok s := ⟨_, rfl⟩
  obtain ⟨s, h⟩ := h
  have h_main := matchAddr_outbound_iff h
  exact ⟨s, h, (h_main.1 (by decide)).1, fun addr =>
    ((h_main.2 (runFits_of_short GeoIPMatcher.valid_new (by decide) (by decide) (by decide))).1
      addr).2⟩

/-- The rule names an outbound that does not exist: the server is built, and the first
connection to an address of the rule panics. -/
theorem matchAddr_blocked :
    ∃ s, (Config.tenTo "block").buildServer .calm .offline .debug = .ok s ∧
      s.router.matchAddr .offline (.socketAddress (.v4 0x0A000001 80)) = .ok "block" ∧
      s.router.matchSocketAddr (.v4 0x0A000001 80) = .ok "block" ∧
      "block" ∉ s.innerMap ∧
      s.streamBuilder .offline (.socketAddress (.v4 0x0A000001 80)) =
        .error (.fault (.unwrapNone "inner_map.get(ob)")) :=
  ⟨_, rfl, by decide, by decide, by decide, by decide⟩

end V2ray
