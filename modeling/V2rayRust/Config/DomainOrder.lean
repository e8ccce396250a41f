import V2rayRust.Config.Routing

/-!
# The order of domain rules

Both maps of the `RouterBuilder` keep the order in which tags came, but `build` collects the regex
sets through a `HashMap`. So a domain name gets the tag that the configuration puts first as long
as a domain rule matches it, or the expressions of one tag only (`matchAddr_order_iff`).

A geosite file that is read for a tag stands for a rule of this tag, wherever its domains are.
-/

namespace V2ray

open KeepInsertOrderMap

/-! ### Orders of a hash map -/

/-- An order in which hash maps are iterated. -/
structure HashOrder where
  order : {α : Type} → List (String × α) → List (String × α)
  perm : ∀ {α : Type} (es : List (String × α)), (order es).Perm es

/-- The order that has the key `k` first. -/
def HashOrder.front (k : String) : HashOrder where
  order es := es.filter (fun e => e.1 = k) ++ es.filter fun e => !decide (e.1 = k)
  perm es := List.filter_append_perm (fun e => decide (e.1 = k)) es

namespace RouteWorld

variable {R : RouteWorld} {o : HashOrder}

/-- The world with another order. -/
abbrev withOrder (R : RouteWorld) (o : HashOrder) : RouteWorld :=
  { R with
    hashOrder := o.order
    hashOrder_perm := o.perm }

/-! ### The calls do not depend on the order -/

theorem geositeFields_withOrder (tags : GeositeTags) :
    (R.withOrder o).geositeFields tags = R.geositeFields tags := by
  delta geositeFields
  rfl

/-- The loop over the groups of a geosite file does not depend on the order. -/
theorem geositeGroups_withOrder (tags : GeositeTags) :
    (R.withOrder o).geositeGroups tags = R.geositeGroups tags := by
  ext n is group skipField
  induction n generalizing is group skipField with
  | zero => rfl
  | succ n ih =>
    have h_ih : (R.withOrder o).geositeGroups tags n = R.geositeGroups tags n := by
      ext is group skipField
      exact ih is group skipField
    unfold geositeGroups
    rw [h_ih, geositeFields_withOrder]

theorem geoipFields_withOrder (tag : String) (tags : List String) :
    (R.withOrder o).geoipFields tag tags = R.geoipFields tag tags := by
  delta geoipFields
  rfl

/-- The loop over the entries of a geoip file does not depend on the order. -/
theorem geoipEntries_withOrder (tag : String) (tags : List String) :
    (R.withOrder o).geoipEntries tag tags = R.geoipEntries tag tags := by
  ext n is cidr countryCode skipField
  induction n generalizing is cidr countryCode skipField with
  | zero => rfl
  | succ n ih =>
    have h_ih : (R.withOrder o).geoipEntries tag tags n = R.geoipEntries tag tags n := by
      ext is cidr countryCode skipField
      exact ih is cidr countryCode skipField
    unfold geoipEntries
    rw [h_ih, geoipFields_withOrder]

theorem geoipCalls_withOrder (fileName outboundTag : String) (geoipTags : List String) :
    (R.withOrder o).geoipCalls fileName outboundTag geoipTags =
      R.geoipCalls fileName outboundTag geoipTags := by
  unfold geoipCalls
  dsimp only
  rw [geoipEntries_withOrder]
  cases R.openFile fileName <;> rfl

/-- The first loop of `read_geosite_file` does the same for every entry of its map. -/
theorem forM_ensureMatcher {es es' : List (String × String)} (h : es.Perm es') {tag : String}
    (h_tag : ∀ e ∈ es, e.2 = tag) (useMph : Bool) :
    (es.forM fun e => rule (.ensureMatcher e.2 useMph)) =
      es'.forM fun e => rule (.ensureMatcher e.2 useMph) := by
  have h_const {xs : List (String × String)} (h_xs : ∀ e ∈ xs, e.2 = tag) :
      (xs.map fun e => RuleCall.ensureMatcher e.2 useMph) =
        List.replicate xs.length (.ensureMatcher tag useMph) := by
    rw [← List.map_const']
    exact List.map_congr_left fun e h_e => by rw [h_xs e h_e]
  calc (es.forM fun e => rule (.ensureMatcher e.2 useMph))
      = ⟨es.map fun e => .ensureMatcher e.2 useMph, .ok ()⟩ := Trace.forM_call es _
    _ = ⟨es'.map fun e => .ensureMatcher e.2 useMph, .ok ()⟩ := by
      rw [h_const h_tag, h_const fun e h_e => h_tag e (h.mem_iff.mpr h_e), h.length_eq]
    _ = es'.forM fun e => rule (.ensureMatcher e.2 useMph) := (Trace.forM_call es' _).symm

/-- The map of a geosite rule sends everything to its tag. -/
theorem snd_of_mem_geositeTags {rules : List String} {tag : String} (toUppercase : String → String)
    {e : Sigma fun _ : String => String}
    (h : e ∈ (rules.foldl (fun map rule => map.insert (toUppercase rule) tag)
      (∅ : GeositeTags)).entries) : e.2 = tag := by
  refine List.foldlRecOn (motive := fun m : GeositeTags => ∀ e ∈ m.entries, e.2 = tag) rules _
    (fun _ h => (by cases h)) ?_ e h
  intro m h_m r _ e h_e
  rw [AList.entries_insert] at h_e
  rcases List.mem_cons.mp h_e with rfl | h_e
  · rfl
  · exact h_m e ((List.kerase_sublist _ _).subset h_e)

/-- Reading a rule file does not depend on the order of a hash map. -/
theorem geositeRules_withOrder (r : GeoSiteRules) :
    (R.withOrder o).geositeRules r = R.geositeRules r := by
  unfold geositeRules readGeositeFile
  dsimp only
  rw [geositeGroups_withOrder]
  generalize h_tags : (r.rules.foldl (fun map rule => map.insert (R.toUppercase rule) r.tag)
    (∅ : GeositeTags)) = tags
  have h_ensure : ((o.order (tags.entries.map fun e => (e.1, e.2))).forM fun tag =>
      rule (.ensureMatcher tag.2 r.useMph)) =
      (R.hashOrder (tags.entries.map fun e => (e.1, e.2))).forM fun tag =>
        rule (.ensureMatcher tag.2 r.useMph) := by
    have h_tag : ∀ e ∈ o.order (tags.entries.map fun e => (e.1, e.2)), e.2 = r.tag := by
      intro e h_e
      obtain ⟨e', h_e', rfl⟩ := List.mem_map.mp ((o.perm _).mem_iff.mp h_e)
      rw [← h_tags] at h_e'
      exact snd_of_mem_geositeTags R.toUppercase h_e'
    exact forM_ensureMatcher ((o.perm _).trans (R.hashOrder_perm _).symm) h_tag _
  rw [h_ensure]
  cases R.openFile r.filePath <;> rfl

/-- The calls of a configuration do not depend on the order: the tags of a geosite rule all have one
outbound. -/
theorem ruleCalls_withOrder (c : Config) : (R.withOrder o).ruleCalls c = R.ruleCalls c := by
  have h_site : (R.withOrder o).geositeRules = R.geositeRules := funext geositeRules_withOrder
  have h_ip : (R.withOrder o).geoipCalls = R.geoipCalls := by
    ext fileName outboundTag geoipTags
    exact geoipCalls_withOrder fileName outboundTag geoipTags
  unfold ruleCalls
  rw [h_site, h_ip]
  rfl

end RouteWorld

/-! ### What the configuration says -/

/-- What the libraries find: `hits` for a rule of a domain matcher, `found` for an expression. -/
structure RouteWorld.Finds (R : RouteWorld) (hits : String × MatchType → String → Bool)
    (found : String → String → Bool) : Prop where
  reverseQuery_eq : ∀ m name, R.reverseQuery m name = m.rules.any (hits · name)
  isMatch_eq : ∀ rules name, R.isMatch rules name = rules.any (found · name)

section Order

variable (hits : String × MatchType → String → Bool) (found : String → String → Bool)
  (calls : List RuleCall) (name : String)

/-- A full, domain or substring rule of the tag matches. -/
def DomainHit (tag : String) : Prop :=
  ∃ e ∈ entriesAt (calls.filterMap RuleCall.asDomainEntry) tag, ∃ rule ∈ e.2, hits rule name

/-- An expression of the tag matches. -/
def RegexHit (tag : String) : Prop :=
  ∃ rules ∈ entriesAt (calls.filterMap RuleCall.asRegexEntry) tag, ∃ rule ∈ rules, found rule name

instance (tag : String) : Decidable (DomainHit hits calls name tag) := by
  unfold DomainHit
  infer_instance

instance (tag : String) : Decidable (RegexHit found calls name tag) := by
  unfold RegexHit
  infer_instance

/-- The first tag, in the order of the tags' first domain rules, with a rule that matches. -/
def firstDomainTag : Option String :=
  (keysOf (calls.filterMap RuleCall.asDomainEntry)).find? (DomainHit hits calls name ·)

/-- The first tag, in the order of the tags' first groups of expressions, with an expression that
matches. -/
def firstRegexTag : Option String :=
  (keysOf (calls.filterMap RuleCall.asRegexEntry)).find? (RegexHit found calls name ·)

/-- The tag for a domain name in the order of the configuration. -/
def tagInOrder (default : String) : String :=
  ((firstDomainTag hits calls name).or (firstRegexTag found calls name)).getD default

/-- A domain rule matches, or the expressions of at most one tag do. -/
def Undisputed : Prop :=
  (∃ tag, DomainHit hits calls name tag) ∨
    ∀ tag tag', RegexHit found calls name tag → RegexHit found calls name tag' → tag = tag'

end Order

/-! ### What the router answers -/

section Answer

variable {R : RouteWorld} {p : Profile} {c : Config} {default : String} {router : Router}
  {hits : String × MatchType → String → Bool} {found : String → String → Bool}
  {calls : List RuleCall} {name : String}

/-- Whether `build_router` succeeds does not depend on the order either, and what it makes only in
the regex sets. -/
theorem buildRouter_withOrder (h : buildRouter R p c default = .ok router) :
    ∃ b, Holds p (R.ruleCalls c).calls b ∧ ∀ o : HashOrder,
      buildRouter (R.withOrder o) p c default =
        .ok ⟨b.domainMatchers.data, b.ipMatcher, o.order b.regexMatchers.data, default⟩ := by
  obtain ⟨b, h_b, h⟩ := bind_eq_ok.mp h
  obtain ⟨u, h_result, h⟩ := bind_eq_ok.mp h
  obtain ⟨_, h_sets, _⟩ := bind_eq_ok.mp h
  have h_holds := holds_foldlM (holds_new p) (ofFault_eq_ok.mp h_b)
  rw [List.nil_append] at h_holds
  refine ⟨b, h_holds, fun o => ?_⟩
  unfold buildRouter
  rw [RouteWorld.ruleCalls_withOrder, h_b, ok_bind, h_result, ok_bind]
  unfold RouterBuilder.build
  dsimp only
  rw [h_sets]
  rfl

/-- The first domain table that matches, in the order in which their tags came, is the one that the
rules say. -/
theorem find?_domains (h_finds : R.Finds hits found) {m : KeepInsertOrderMap DomainMatcher}
    (h : Collects DomainMatcher.ofEntries (calls.filterMap RuleCall.asDomainEntry) m) :
    (m.data.find? fun e => R.reverseQuery e.2 name).map Prod.fst =
      firstDomainTag hits calls name := by
  rw [h]
  refine find?_grouped _ DomainMatcher.ofEntries fun tag => ?_
  rw [h_finds.reverseQuery_eq]
  apply Bool.eq_iff_iff.mpr
  rw [decide_eq_true_iff]
  show (List.flatMap Prod.snd _).any _ = true ↔ _
  simp only [List.any_flatMap, List.any_eq_true]
  rfl

/-- The regex set of a tag matches when an expression that was added for the tag does. -/
theorem isMatch_flatten (h_finds : R.Finds hits found) (tag : String) :
    R.isMatch (entriesAt (calls.filterMap RuleCall.asRegexEntry) tag).flatten name =
      decide (RegexHit found calls name tag) := by
  rw [h_finds.isMatch_eq]
  apply Bool.eq_iff_iff.mpr
  rw [decide_eq_true_iff]
  simp only [List.any_flatten, List.any_eq_true]
  rfl

/-- What the regex sets answer in an order. -/
def regexAnswer (R : RouteWorld) (calls : List RuleCall) (name : String) (o : HashOrder) :
    Option String :=
  ((o.order (regexTable calls)).find? fun e => R.isMatch e.2 name).map Prod.fst

/-- The answers are tags of which an expression matches. -/
theorem hit_of_regexAnswer (h_finds : R.Finds hits found) {o : HashOrder} {tag : String}
    (h : regexAnswer R calls name o = some tag) : RegexHit found calls name tag := by
  obtain ⟨e, h_e, rfl⟩ := Option.map_eq_some_iff.mp h
  have h_match : R.isMatch e.2 name = true :=
    List.find?_some (p := fun e : String × List String => R.isMatch e.2 name) h_e
  have h_mem := (o.perm _).mem_iff.mp (List.mem_of_find?_eq_some h_e)
  obtain ⟨g, h_g, rfl⟩ := List.mem_map.mp h_mem
  obtain ⟨k, _, rfl⟩ := List.mem_map.mp h_g
  rw [isMatch_flatten h_finds] at h_match
  exact of_decide_eq_true h_match

/-- A tag with an expression that matches has its regex set in the table, and all its expressions
are in it. -/
theorem mem_regexTable_of_hit {tag : String} (h : RegexHit found calls name tag) :
    (tag, (entriesAt (calls.filterMap RuleCall.asRegexEntry) tag).flatten) ∈
      regexTable calls := by
  obtain ⟨rules, h_rules, _⟩ := h
  have h_key : tag ∈ keysOf (calls.filterMap RuleCall.asRegexEntry) := by
    by_contra h_not
    rw [entriesAt_eq_nil h_not] at h_rules
    cases h_rules
  exact List.mem_map.mpr ⟨_, List.mem_map.mpr ⟨tag, h_key, rfl⟩, rfl⟩

/-- A tag of which an expression matches is the answer in some order. -/
theorem regexAnswer_front (h_finds : R.Finds hits found) {tag : String}
    (h : RegexHit found calls name tag) :
    regexAnswer R calls name (.front tag) = some tag := by
  have h_mem := mem_regexTable_of_hit h
  have h_front : (tag, (entriesAt (calls.filterMap RuleCall.asRegexEntry) tag).flatten) ∈
      (regexTable calls).filter fun e => e.1 = tag :=
    List.mem_filter.mpr ⟨h_mem, decide_eq_true rfl⟩
  unfold regexAnswer HashOrder.front
  dsimp only
  rw [List.find?_append]
  cases h_find : ((regexTable calls).filter fun e => e.1 = tag).find?
      fun e => R.isMatch e.2 name with
  | none =>
    have h_none := List.find?_eq_none.mp h_find _ h_front
    rw [isMatch_flatten h_finds, decide_eq_true h] at h_none
    exact absurd rfl h_none
  | some e =>
    have h_e := (List.mem_filter.mp (List.mem_of_find?_eq_some h_find)).2
    rw [Option.some_or, Option.map_some, of_decide_eq_true h_e]

/-- If the expressions of one tag match only, the order does not matter. -/
theorem regexAnswer_eq (h_finds : R.Finds hits found)
    (h_one : ∀ tag tag', RegexHit found calls name tag → RegexHit found calls name tag' →
      tag = tag') (o : HashOrder) :
    regexAnswer R calls name o = firstRegexTag found calls name := by
  cases h_answer : regexAnswer R calls name o with
  | none =>
    symm
    -- a hit of some tag would be an entry of the table, and all of them have been tried
    refine List.find?_eq_none.mpr fun tag _ h_hit => ?_
    have h_none := List.find?_eq_none.mp (Option.map_eq_none_iff.mp h_answer) _
      ((o.perm _).mem_iff.mpr (mem_regexTable_of_hit (of_decide_eq_true h_hit)))
    rw [isMatch_flatten h_finds] at h_none
    exact h_none h_hit
  | some tag =>
    have h_hit := hit_of_regexAnswer h_finds h_answer
    symm
    cases h_first : firstRegexTag found calls name with
    | none =>
      -- the tag that answers has rules, so it is among the tags that are tried in order
      have h_key : tag ∈ keysOf (calls.filterMap RuleCall.asRegexEntry) := by
        obtain ⟨rules, h_rules, _⟩ := h_hit
        by_contra h_not
        rw [entriesAt_eq_nil h_not] at h_rules
        cases h_rules
      exact absurd (decide_eq_true h_hit) (List.find?_eq_none.mp h_first tag h_key)
    | some tag' =>
      have h_hit' : decide (RegexHit found calls name tag') = true :=
        List.find?_some (p := fun tag => decide (RegexHit found calls name tag)) h_first
      rw [h_one tag tag' h_hit (of_decide_eq_true h_hit')]

/-- No tag is found exactly if no table matches. -/
theorem firstDomainTag_eq_none_iff :
    firstDomainTag hits calls name = none ↔ ¬ ∃ tag, DomainHit hits calls name tag := by
  constructor
  · rintro h ⟨tag, h_hit⟩
    have h_key : tag ∈ keysOf (calls.filterMap RuleCall.asDomainEntry) := by
      obtain ⟨e, h_e, _⟩ := h_hit
      by_contra h_not
      rw [entriesAt_eq_nil h_not] at h_e
      cases h_e
    exact List.find?_eq_none.mp h tag h_key (decide_eq_true h_hit)
  · intro h
    exact List.find?_eq_none.mpr fun tag _ h_hit => h ⟨tag, of_decide_eq_true h_hit⟩

/-- What a router answers for a domain name: the first domain tag that matches, or else what the
regex sets say in their order, or else the default. -/
theorem matchAddr_withOrder (h_finds : R.Finds hits found) {b : RouterBuilder}
    (h : Holds p calls b) (o : HashOrder) (port : UInt16) :
    Router.matchAddr (R.withOrder o)
        ⟨b.domainMatchers.data, b.ipMatcher, o.order b.regexMatchers.data, default⟩
        (.domainNameAddress name port) =
      .ok (((firstDomainTag hits calls name).or (regexAnswer R calls name o)).getD default) := by
  have h_table : b.regexMatchers.data = regexTable calls := h.regexes
  rw [← find?_domains h_finds h.domains]
  unfold Router.matchAddr regexAnswer
  rw [h_table]
  dsimp only
  cases b.domainMatchers.data.find? fun e => R.reverseQuery e.2 name with
  | some e => rfl
  | none =>
    dsimp only
    cases (o.order (regexTable calls)).find? fun e => R.isMatch e.2 name <;> rfl

/-- Rules without metacharacters, and expressions likewise. -/
def RouteWorld.words : RouteWorld :=
  { RouteWorld.offline with
    reverseQuery := fun m name => m.rules.any (wordHits · name)
    isMatch := fun rules name => rules.any fun rule => rule.toList <:+: name.toList }
where
  wordHits : String × MatchType → String → Bool
    | (rule, .full _), name => rule = name
    | (rule, .domain _), name => rule = name ∨ '.' :: rule.toList <:+ name.toList
    | (rule, .subStr _), name => rule.toList <:+: name.toList

theorem RouteWorld.words_finds :
    words.Finds words.wordHits fun rule name => rule.toList <:+: name.toList where
  reverseQuery_eq _ _ := rfl
  isMatch_eq _ _ := rfl

/-- **Domain names are routed in the order of the configuration**, whatever the order of the hash
maps, exactly if the name is undisputed. -/
theorem matchAddr_order_iff (h_finds : R.Finds hits found)
    (h : buildRouter R p c default = .ok router) (name : String) (port : UInt16) :
    (∀ o : HashOrder, ∃ r, buildRouter (R.withOrder o) p c default = .ok r ∧
      r.matchAddr (R.withOrder o) (.domainNameAddress name port) =
        .ok (tagInOrder hits found (R.ruleCalls c).calls name default)) ↔
      Undisputed hits found (R.ruleCalls c).calls name := by
  obtain ⟨b, h_holds, h_build⟩ := buildRouter_withOrder h
  -- in each order: what `match_addr` answers is what the tables answer
  have h_answer (o : HashOrder) : (∃ r, buildRouter (R.withOrder o) p c default = .ok r ∧
      r.matchAddr (R.withOrder o) (.domainNameAddress name port) =
        .ok (tagInOrder hits found (R.ruleCalls c).calls name default)) ↔
      ((firstDomainTag hits (R.ruleCalls c).calls name).or
        (regexAnswer R (R.ruleCalls c).calls name o)).getD default =
          tagInOrder hits found (R.ruleCalls c).calls name default := by
    rw [h_build o]
    constructor
    · rintro ⟨r, h_r, h_match⟩
      obtain rfl := Except.ok.inj h_r
      rw [matchAddr_withOrder h_finds h_holds] at h_match
      exact Except.ok.inj h_match
    · intro h_eq
      exact ⟨_, rfl, by rw [matchAddr_withOrder h_finds h_holds, h_eq]⟩
  simp only [h_answer]
  unfold Undisputed
  by_cases h_domain : ∃ tag, DomainHit hits (R.ruleCalls c).calls name tag
  · -- the regex sets are not asked
    refine iff_of_true (fun o => ?_) (.inl h_domain)
    obtain ⟨tag, h_tag⟩ := Option.ne_none_iff_exists'.mp
      (mt firstDomainTag_eq_none_iff.mp (not_not.mpr h_domain))
    unfold tagInOrder
    rw [h_tag]
    rfl
  · unfold tagInOrder
    rw [firstDomainTag_eq_none_iff.mpr h_domain]
    simp only [Option.none_or]
    constructor
    · intro h_all
      -- each of two tags that match is made the first one in turn
      refine .inr fun tag tag' h_tag h_tag' => ?_
      have h_same := (h_all (.front tag)).trans (h_all (.front tag')).symm
      rw [regexAnswer_front h_finds h_tag, regexAnswer_front h_finds h_tag'] at h_same
      exact h_same
    · intro h_one o
      rw [regexAnswer_eq h_finds (h_one.resolve_left h_domain)]

end Answer

/-- A domain rule for `b` and expressions for `a` and `b`. -/
def Config.disputed : Config where
  domainRoutingRules :=
    [⟨"a", [], [], ["exa"], [], false⟩, ⟨"b", ["example.com"], [], ["mple"], [], false⟩]

/-- A domain rule decides before the expressions do. -/
theorem matchAddr_order_full :
    ∃ r, buildRouter (RouteWorld.words.withOrder (.front "a")) .debug .disputed "c" = .ok r ∧
      r.matchAddr (RouteWorld.words.withOrder (.front "a")) (.domainNameAddress "example.com" 443) =
        .ok "b" := by
  have h : ∃ router, buildRouter .words .debug .disputed "c" = .ok router := ⟨_, rfl⟩
  obtain ⟨router, h⟩ := h
  have h_undisputed : Undisputed RouteWorld.words.wordHits
      (fun rule name => rule.toList <:+: name.toList)
      (RouteWorld.words.ruleCalls Config.disputed).calls "example.com" := .inl ⟨"b", by decide⟩
  exact (matchAddr_order_iff RouteWorld.words_finds h "example.com" 443).mpr h_undisputed
    (.front "a")

/-- Expressions of both tags match, and the hash map has the second one first. -/
theorem matchAddr_order_disputed :
    tagInOrder RouteWorld.words.wordHits (fun rule name => rule.toList <:+: name.toList)
        (RouteWorld.words.ruleCalls Config.disputed).calls "example.org" "c" = "a" ∧
    ∃ r, buildRouter (RouteWorld.words.withOrder (.front "b")) .debug .disputed "c" = .ok r ∧
      r.matchAddr (RouteWorld.words.withOrder (.front "b")) (.domainNameAddress "example.org" 443) =
        .ok "b" :=
  ⟨by decide, _, rfl, by decide⟩

end V2ray
