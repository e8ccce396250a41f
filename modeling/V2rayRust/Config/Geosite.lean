import V2rayRust.Config.GeoFile
import V2rayRust.Config.Routing

/-!
# Reading geosite files

`read_geosite_file` on the canonical encoding of a `SiteGroupList`. As in a geoip file, one loop
goes through the groups: the tag of the group tells whether a field with the number 1 is a tag or
the next group. A domain is read into a message of its own, so nothing of a domain is left for the
next one (`readGeositeFile_inserts`).
-/

namespace V2ray

open Proto Varint KeepInsertOrderMap

/-! ### The builder, tag by tag -/

namespace RouterBuilder

/-- The rules in the matcher of a tag. -/
def rulesAt (b : RouterBuilder) (tag : String) : List (String × MatchType) :=
  ((b.domainMatchers.value tag).map DomainMatcher.rules).getD []

/-- The expressions of a tag. -/
def exprsAt (b : RouterBuilder) (tag : String) : List String :=
  (b.regexMatchers.value tag).getD []

end RouterBuilder

namespace SiteDomain

/-- The rule of a domain, unless it is an expression. -/
def rule (d : SiteDomain) : Option (String × MatchType) := d.type.matchType.map (d.value, ·)

/-- The expression of a domain, if it is one. -/
def expr (d : SiteDomain) : Option String := if d.type = .regex then some d.value else none

end SiteDomain

namespace RouterBuilder

/-- `b'` is `b` with further rules and expressions of the tags. -/
structure Adds (b b' : RouterBuilder) (rules : String → List (String × MatchType))
    (exprs : String → List String) : Prop where
  keys : b.domainMatchers.keys ⊆ b'.domainMatchers.keys
  ipMatcher : b'.ipMatcher = b.ipMatcher
  rulesAt : ∀ tag, b'.rulesAt tag = b.rulesAt tag ++ rules tag
  exprsAt : ∀ tag, b'.exprsAt tag = b.exprsAt tag ++ exprs tag

theorem Adds.refl (b : RouterBuilder) : Adds b b (fun _ => []) fun _ => [] where
  keys _ h := h
  ipMatcher := rfl
  rulesAt _ := (List.append_nil _).symm
  exprsAt _ := (List.append_nil _).symm

/-- What is added by two stretches is what the first adds and then what the second does. -/
theorem Adds.trans {b b' b'' : RouterBuilder} {rules rules' : String → List (String × MatchType)}
    {exprs exprs' : String → List String} (h : Adds b b' rules exprs)
    (h' : Adds b' b'' rules' exprs') :
    Adds b b'' (fun tag => rules tag ++ rules' tag) fun tag => exprs tag ++ exprs' tag where
  keys _ h_t := h'.keys (h.keys h_t)
  ipMatcher := h'.ipMatcher.trans h.ipMatcher
  rulesAt tag := by rw [h'.rulesAt, h.rulesAt, List.append_assoc]
  exprsAt tag := by rw [h'.exprsAt, h.exprsAt, List.append_assoc]

/-- Regex rules are added at the end of what is under their tag. -/
theorem exprsAt_addRegexRules (b : RouterBuilder) (tag : String) (exprs : List String)
    (t : String) :
    (b.addRegexRules tag exprs).exprsAt t = b.exprsAt t ++ if t = tag then exprs else [] := by
  unfold addRegexRules
  by_cases h : tag ∈ b.regexMatchers.keys
  · obtain ⟨m', h_get, _, h_value⟩ := b.regexMatchers.value_getMut h (· ++ exprs)
    rw [h_get]
    show (m'.value t).getD [] = (b.regexMatchers.value t).getD [] ++ _
    rw [h_value]
    split
    · next h_t =>
      obtain ⟨v, h_v⟩ := b.regexMatchers.exists_value h
      rw [h_t, h_v]
      rfl
    · exact (List.append_nil _).symm
  · rw [b.regexMatchers.getMut_of_notMem h]
    -- the tag has no list yet
    show ((b.regexMatchers.insert tag exprs).value t).getD [] =
      (b.regexMatchers.value t).getD [] ++ _
    rw [value_insert _ h]
    split
    · next h_t =>
      rw [h_t, value_of_notMem _ h]
      rfl
    · exact (List.append_nil _).symm

/-- A rule that goes to the matcher of its tag. -/
theorem adds_getMut (b : RouterBuilder) {tag : String} (h : tag ∈ b.domainMatchers.keys)
    (rule : String) (ty : MatchType) :
    ∃ m, b.domainMatchers.getMut tag (·.reverseInsert rule ty) = some m ∧
      Adds b { b with domainMatchers := m } (fun t => if t = tag then [(rule, ty)] else [])
        fun _ => [] := by
  obtain ⟨m, h_get, h_keys, h_value⟩ := b.domainMatchers.value_getMut h (·.reverseInsert rule ty)
  refine ⟨m, h_get, ?_⟩
  constructor
  case keys => exact fun t h_t => h_keys ▸ h_t
  case ipMatcher => rfl
  case rulesAt =>
    intro t
    show ((m.value t).map DomainMatcher.rules).getD [] =
      ((b.domainMatchers.value t).map DomainMatcher.rules).getD [] ++ _
    rw [h_value]
    -- only the matcher of the tag has changed
    split
    · next h_t =>
      obtain ⟨v, h_v⟩ := b.domainMatchers.exists_value h
      rw [h_t, h_v]
      rfl
    · exact (List.append_nil _).symm
  case exprsAt => exact fun t => (List.append_nil _).symm

/-- Expressions that go to the list of their tag. -/
theorem adds_addRegexRules (b : RouterBuilder) (tag : String) (exprs : List String) :
    Adds b (b.addRegexRules tag exprs) (fun _ => []) fun t => if t = tag then exprs else [] := by
  have h_rest : (b.addRegexRules tag exprs).domainMatchers = b.domainMatchers ∧
      (b.addRegexRules tag exprs).ipMatcher = b.ipMatcher := by
    unfold addRegexRules
    split
    · exact ⟨rfl, rfl⟩
    · exact ⟨rfl, rfl⟩
  constructor
  case keys =>
    rw [h_rest.1]
    exact fun _ h => h
  case ipMatcher => exact h_rest.2
  case rulesAt =>
    intro t
    rw [List.append_nil, rulesAt, h_rest.1]
    rfl
  case exprsAt => exact exprsAt_addRegexRules b tag exprs

/-- **A domain** goes to the matcher or the expressions of its tag. -/
theorem adds_siteDomain (b : RouterBuilder) {tag : String} (h : tag ∈ b.domainMatchers.keys)
    (d : SiteDomain) :
    ∃ b', b.siteDomain tag d = .ok b' ∧
      Adds b b' (fun t => if t = tag then d.rule.toList else [])
        fun t => if t = tag then d.expr.toList else [] := by
  have h_matcher (ty : MatchType) := b.adds_getMut h d.value ty
  have h_none {α : Type} : (fun t => if t = tag then ([] : List α) else []) = fun _ => [] :=
    funext fun _ => ite_self _
  unfold siteDomain SiteDomain.rule SiteDomain.expr
  dsimp only
  -- a regular expression is kept apart, every other type goes to the matcher
  cases d.type with
  | plain =>
    obtain ⟨m, h_get, h_adds⟩ := h_matcher (.subStr true)
    exact ⟨_, by dsimp only; rw [h_get], h_none ▸ h_adds⟩
  | domain =>
    obtain ⟨m, h_get, h_adds⟩ := h_matcher (.domain true)
    exact ⟨_, by dsimp only; rw [h_get], h_none ▸ h_adds⟩
  | full =>
    obtain ⟨m, h_get, h_adds⟩ := h_matcher (.full true)
    exact ⟨_, by dsimp only; rw [h_get], h_none ▸ h_adds⟩
  | regex =>
    have h_adds := adds_addRegexRules b tag [d.value]
    exact ⟨_, if_pos ((containsKey_iff _).mpr h), h_none ▸ h_adds⟩

/-- A matcher for the tag, if there is none, has no rules yet. -/
theorem adds_ensureMatcher (b : RouterBuilder) (tag : String) (useMph : Bool) :
    Adds b (b.ensureMatcher tag useMph) (fun _ => []) (fun _ => []) ∧
      tag ∈ (b.ensureMatcher tag useMph).domainMatchers.keys := by
  unfold ensureMatcher
  split
  · next h => exact ⟨.refl b, (containsKey_iff _).mp h⟩
  · next h =>
    -- the tag is new: it comes last, with an empty matcher
    have h_new : tag ∉ b.domainMatchers.keys := fun h_mem => h ((containsKey_iff _).mpr h_mem)
    have h_keys : (b.domainMatchers.insert tag (.new useMph)).keys =
        b.domainMatchers.keys ++ [tag] := by
      unfold keys
      rw [insert_of_notMem _ h_new, List.map_append]
      rfl
    refine ⟨?_, h_keys ▸ List.mem_append_right _ (List.mem_singleton_self tag)⟩
    constructor
    case keys => exact fun t h_t => h_keys ▸ List.mem_append_left _ h_t
    case ipMatcher => rfl
    case rulesAt =>
      intro t
      rw [List.append_nil]
      show (((b.domainMatchers.insert tag (.new useMph)).value t).map DomainMatcher.rules).getD []
        = ((b.domainMatchers.value t).map DomainMatcher.rules).getD []
      rw [value_insert _ h_new]
      split
      · next h_t =>
        rw [h_t, value_of_notMem _ h_new]
        rfl
      · rfl
    case exprsAt => exact fun t => (List.append_nil _).symm

/-! ### Runs of calls -/

/-- The first loop makes a matcher for every tag. -/
theorem adds_ensureMatchers (p : Profile) (useMph : Bool) (es : List (String × String))
    (b : RouterBuilder) :
    ∃ b', (es.map fun e => RuleCall.ensureMatcher e.2 useMph).foldlM (apply p) b = .ok b' ∧
      Adds b b' (fun _ => []) (fun _ => []) ∧ ∀ e ∈ es, e.2 ∈ b'.domainMatchers.keys := by
  induction es generalizing b with
  | nil => exact ⟨b, rfl, .refl b, fun e h_e => (by cases h_e)⟩
  | cons e es ih =>
    obtain ⟨h_adds, h_mem⟩ := b.adds_ensureMatcher e.2 useMph
    obtain ⟨b', h_run, h_rest, h_es⟩ := ih (b.ensureMatcher e.2 useMph)
    refine ⟨b', h_run, h_adds.trans h_rest, ?_⟩
    rw [List.forall_mem_cons]
    exact ⟨h_rest.keys h_mem, h_es⟩

/-- The domains of a file. -/
theorem adds_siteDomains (p : Profile) (ds : List (String × SiteDomain)) (b : RouterBuilder)
    (h : ∀ e ∈ ds, e.1 ∈ b.domainMatchers.keys) :
    ∃ b', (ds.map fun e => RuleCall.siteDomain e.1 e.2).foldlM (apply p) b = .ok b' ∧
      Adds b b' (fun tag => (entriesAt ds tag).filterMap SiteDomain.rule)
        fun tag => (entriesAt ds tag).filterMap SiteDomain.expr := by
  -- on the domains of the file
  induction ds generalizing b with
  | nil => exact ⟨b, rfl, .refl b⟩
  | cons e ds ih =>
    obtain ⟨h_e, h_ds⟩ := List.forall_mem_cons.mp h
    obtain ⟨b₁, h_site, h_adds⟩ := b.adds_siteDomain h_e e.2
    obtain ⟨b₂, h_run, h_rest⟩ := ih b₁ fun e' h_e' => h_adds.keys (h_ds e' h_e')
    refine ⟨b₂, ?_, ?_⟩
    · show (b.siteDomain e.1 e.2 >>= _) = _
      rw [h_site]
      exact h_run
    · -- the first entry counts for its own tag only
      have h_first {β : Type} (f : SiteDomain → Option β) (tag : String) :
          (entriesAt (e :: ds) tag).filterMap f =
            (if tag = e.1 then (f e.2).toList else []) ++ (entriesAt ds tag).filterMap f := by
        unfold entriesAt
        rw [List.filter_cons]
        by_cases h_tag : tag = e.1
        · subst h_tag
          simp only [decide_true, if_true, List.map_cons, List.filterMap_cons]
          cases f e.2 <;> rfl
        · rw [if_neg h_tag]
          simp [Ne.symm h_tag]
      simp only [h_first]
      exact h_adds.trans h_rest

end RouterBuilder

/-! ### The loops -/

namespace Geosite

/-- The encoding of a group: its tag comes first. -/
theorem SiteGroup.encode_fields {g : SiteGroup} (h : g.tag ≠ "") :
    encode g.fields = Field.encode ⟨1, .bytes (utf8 g.tag)⟩ ++
      encode (g.domain.map fun d => ⟨2, .bytes (encode d.fields)⟩) := by
  unfold fields bytesField
  rw [if_neg (utf8_ne_nil h), encode_append]
  exact congrArg (· ++ _) (List.append_nil _)

/-- The domains of a group, for the outbound tag of the group. -/
def SiteGroup.taken (outboundTag : Option String) (g : SiteGroup) : List (String × Domain) :=
  match outboundTag with
  | some tag => g.domain.map (tag, ·)
  | none => []

/-- The domains of the groups whose tag is a key, in the order of the file. -/
def SiteGroup.selected (tags : RouteWorld.GeositeTags) (siteGroup : List SiteGroup) :
    List (String × Domain) :=
  siteGroup.flatMap fun g => g.taken (tags.lookup g.tag)

/-- The calls for domains. -/
def siteCalls (ds : List (String × Domain)) : List RuleCall :=
  ds.map fun e => .siteDomain e.1 e.2.site

end Geosite

namespace RouteWorld

open Geosite

section Loops

variable {R : RouteWorld} {left : R.Input → List UInt8} (h : R.Streams left) (tags : GeositeTags)
  {is : R.Input} {rest : List UInt8}

theorem eofUnwrap_bind {α : Type} {b : Bool} {is' : R.Input} (h_eof : R.eof is = .ok (b, is'))
    (f : Bool × R.Input → Trace RuleCall Stop α) : R.eofUnwrap is >>= f = f (b, is') := by
  unfold eofUnwrap
  rw [h_eof]
  rfl

include h

/-- The tag of a group. -/
theorem geositeFields_tag {tag : String}
    (h_left : left is = Field.encode ⟨1, .bytes (utf8 tag)⟩ ++ rest)
    (h_size : (utf8 tag).length < maxSize) :
    ∃ is', left is' = rest ∧ ∀ n skipField,
      R.geositeFields tags (n + 1) is "" skipField =
        R.geositeFields tags n is' tag (tags.lookup tag) := by
  obtain ⟨is₁, is₂, _, h_eof, h_tag, h_type, h_is₂⟩ := h.header h_left (by decide) (by decide)
  obtain ⟨is₃, h_read, h_is₃⟩ := h.readString h_is₂ h_size
  refine ⟨is₃, h_is₃, fun n skipField => ?_⟩
  simp only [geositeFields, eofUnwrap_bind h_eof, h_tag, h_type, io_ok_bind, lift_ok_bind,
    Bool.false_eq_true, if_false]
  -- there is no tag yet, so the field is taken for one
  rw [if_neg (by decide), h_read, io_ok_bind]

/-- The next group: its length is read, and the tag is forgotten. -/
theorem geositeFields_group {bs : List UInt8}
    (h_left : left is = Field.encode ⟨1, .bytes bs⟩ ++ rest) (h_size : bs.length < maxSize) :
    ∃ is', left is' = bs ++ rest ∧ ∀ n siteGroupTag skipField, siteGroupTag ≠ "" →
      R.geositeFields tags (n + 1) is siteGroupTag skipField =
        R.geositeFields tags n is' "" skipField := by
  obtain ⟨is₁, is₂, _, h_eof, h_tag, h_type, h_is₂⟩ := h.header h_left (by decide) (by decide)
  obtain ⟨_, is₃, h_read, h_is₃⟩ := h.length h_is₂ h_size
  refine ⟨is₃, h_is₃, fun n siteGroupTag skipField h_ne => ?_⟩
  simp only [geositeFields, eofUnwrap_bind h_eof, h_tag, h_type, io_ok_bind, lift_ok_bind,
    Bool.false_eq_true, if_false]
  -- there is a tag already, so the field is the next group
  rw [if_pos h_ne, h_read, io_ok_bind]

/-- A domain: it is taken for the outbound tag of its group, or skipped. -/
theorem geositeFields_domain (skipField : Option String) {d : Domain}
    (h_left : left is = Field.encode ⟨2, .bytes (encode d.fields)⟩ ++ rest)
    (h_size : (encode d.fields).length < maxSize) :
    ∃ is', left is' = rest ∧ ∀ n siteGroupTag,
      R.geositeFields tags (n + 1) is siteGroupTag skipField =
        ⟨siteCalls (skipField.toList.map (·, d)), .ok ()⟩ >>= fun _ : Unit =>
          R.geositeFields tags n is' siteGroupTag skipField := by
  obtain ⟨is₁, is₂, _, h_eof, h_tag, h_type, h_is₂⟩ := h.header h_left (by decide) (by decide)
  -- a group whose tag is not asked for is passed over
  cases skipField with
  | none =>
    obtain ⟨is₃, h_skip, h_is₃⟩ := h.skipField h_is₂ h_size
    refine ⟨is₃, h_is₃, fun n siteGroupTag => ?_⟩
    simp only [geositeFields, eofUnwrap_bind h_eof, h_tag, h_type, io_ok_bind, lift_ok_bind,
      Bool.false_eq_true, if_false]
    rw [h_skip, io_ok_bind]
    rfl
  | some outboundTag =>
    obtain ⟨is₃, h_read, h_is₃⟩ := h.readDomain h_is₂ h_size (Domain.decode_fields h_size)
      (Domain.mergeFrom_fields h_size)
    refine ⟨is₃, h_is₃, fun n siteGroupTag => ?_⟩
    simp only [geositeFields, eofUnwrap_bind h_eof, h_tag, h_type, io_ok_bind, lift_ok_bind,
      Bool.false_eq_true, if_false]
    rw [h_read, io_ok_bind]
    rfl

/-- The domains of a group. What is left of the rounds is more than what is left of the file. -/
theorem geositeFields_domains (siteGroupTag : String) (skipField : Option String)
    {ds : List Domain} {n : ℕ}
    (h_left : left is = encode (ds.map fun d => ⟨2, .bytes (encode d.fields)⟩) ++ rest)
    (h_size : (left is).length < maxSize) (h_n : (left is).length < n) :
    ∃ n' is', left is' = rest ∧ rest.length < n' ∧
      R.geositeFields tags n is siteGroupTag skipField =
        ⟨siteCalls (SiteGroup.taken skipField ⟨siteGroupTag, ds⟩), .ok ()⟩ >>= fun _ : Unit =>
          R.geositeFields tags n' is' siteGroupTag skipField := by
  induction ds generalizing n is with
  | nil =>
    have h_rest : left is = rest := h_left
    refine ⟨n, is, h_rest, h_rest ▸ h_n, ?_⟩
    cases skipField <;> rfl
  | cons d ds ih =>
    obtain ⟨n, rfl⟩ := Nat.exists_eq_add_of_lt (Nat.lt_of_le_of_lt (Nat.zero_le _) h_n)
    rw [Nat.zero_add] at h_n ⊢
    have h_left : left is = Field.encode ⟨2, .bytes (encode d.fields)⟩ ++
        (encode (ds.map fun d => ⟨2, .bytes (encode d.fields)⟩) ++ rest) :=
      h_left.trans (List.append_assoc _ _ _)
    have h_len := congrArg List.length h_left
    rw [List.length_append] at h_len
    have h_field : (encode d.fields).length <
        (Field.encode ⟨2, .bytes (encode d.fields)⟩).length := length_bytes_lt _ _
    obtain ⟨is₁, h_is₁, h_eq⟩ := geositeFields_domain h tags skipField h_left (by omega)
    have h_len₁ := congrArg List.length h_is₁
    obtain ⟨n', is', h_is', h_n', h_run⟩ := ih (n := n) h_is₁ (by omega) (by omega)
    refine ⟨n', is', h_is', h_n', ?_⟩
    rw [h_eq, h_run, Trace.bind_ok_bind]
    -- the first domain and the others
    cases skipField <;> rfl

/-- The fields of a group. -/
theorem geositeFields_body (skipField : Option String) {g : SiteGroup} (h_tag : g.tag ≠ "")
    {n : ℕ} (h_left : left is = encode g.fields ++ rest)
    (h_size : (left is).length < maxSize) (h_n : (left is).length < n) :
    ∃ n' is', left is' = rest ∧ rest.length < n' ∧
      R.geositeFields tags n is "" skipField =
        ⟨siteCalls (g.taken (tags.lookup g.tag)), .ok ()⟩ >>= fun _ : Unit =>
          R.geositeFields tags n' is' g.tag (tags.lookup g.tag) := by
  obtain ⟨n, rfl⟩ := Nat.exists_eq_add_of_lt (Nat.lt_of_le_of_lt (Nat.zero_le _) h_n)
  rw [Nat.zero_add] at h_n ⊢
  rw [SiteGroup.encode_fields h_tag, List.append_assoc] at h_left
  have h_len := congrArg List.length h_left
  rw [List.length_append] at h_len
  have h_field : (utf8 g.tag).length < (Field.encode ⟨1, .bytes (utf8 g.tag)⟩).length :=
    length_bytes_lt _ _
  obtain ⟨is₁, h_is₁, h_eq⟩ := geositeFields_tag h tags h_left (by omega)
  have h_len₁ := congrArg List.length h_is₁
  obtain ⟨n', is', h_is', h_n', h_run⟩ := geositeFields_domains h tags g.tag (tags.lookup g.tag)
    (n := n) h_is₁ (by omega) (by omega)
  exact ⟨n', is', h_is', h_n', (h_eq _ _).trans h_run⟩

/-- The loop ends with the file. -/
theorem geositeFields_done (h_left : left is = []) : ∃ is', left is' = [] ∧
    ∀ n siteGroupTag skipField, R.geositeFields tags (n + 1) is siteGroupTag skipField =
      ⟨[], .ok (is', siteGroupTag, skipField)⟩ := by
  obtain ⟨is', h_eof, h_is'⟩ := h.done h_left
  refine ⟨is', h_is', fun n siteGroupTag skipField => ?_⟩
  simp only [geositeFields, eofUnwrap_bind h_eof, if_true]
  rfl

/-- **The inner loop**, from the fields of a group on: it goes through the groups that follow and
takes the domains of those that are selected. -/
theorem geositeFields_groups (skipField : Option String) {g : SiteGroup} {gs : List SiteGroup}
    (h_tags : ∀ g' ∈ g :: gs, g'.tag ≠ "") {n : ℕ}
    (h_left : left is = encode g.fields ++ encode (SiteGroup.listFields gs))
    (h_size : (left is).length < maxSize) (h_n : (left is).length < n) :
    ∃ out, R.geositeFields tags n is "" skipField =
      ⟨siteCalls (SiteGroup.selected tags (g :: gs)), .ok out⟩ ∧ left out.1 = [] := by
  -- on the groups that follow, with the skip field that the group before has left
  induction gs generalizing g n is skipField with
  | nil =>
    obtain ⟨n', is₁, h_is₁, h_n', h_body⟩ := geositeFields_body h tags skipField
      (h_tags g List.mem_cons_self) h_left h_size h_n
    obtain ⟨n', rfl⟩ := Nat.exists_eq_add_of_lt h_n'
    obtain ⟨is₂, h_is₂, h_done⟩ := geositeFields_done h tags h_is₁
    have h_selected : SiteGroup.selected tags [g] = g.taken (tags.lookup g.tag) :=
      List.append_nil _
    rw [h_body, h_done, Trace.bind_of_ok rfl, h_selected]
    dsimp only
    rw [List.append_nil]
    exact ⟨_, rfl, h_is₂⟩
  | cons g' gs ih =>
    obtain ⟨n', is₁, h_is₁, h_n', h_body⟩ := geositeFields_body h tags skipField
      (h_tags g List.mem_cons_self) h_left h_size h_n
    obtain ⟨n', rfl⟩ := Nat.exists_eq_add_of_lt (Nat.lt_of_le_of_lt (Nat.zero_le _) h_n')
    rw [Nat.zero_add] at h_n' h_body
    -- the next group is the field that comes now; it takes some of what is left
    have h_is₁ : left is₁ =
        Field.encode ⟨1, .bytes (encode g'.fields)⟩ ++ encode (SiteGroup.listFields gs) := h_is₁
    have h_len := congrArg List.length h_left
    have h_field : (encode g'.fields).length <
        (Field.encode ⟨1, .bytes (encode g'.fields)⟩).length := length_bytes_lt _ _
    have h_next : (encode (SiteGroup.listFields (g' :: gs))).length =
        (Field.encode ⟨1, .bytes (encode g'.fields)⟩).length +
          (encode (SiteGroup.listFields gs)).length := List.length_append
    rw [List.length_append] at h_len
    obtain ⟨is₂, h_is₂, h_group⟩ := geositeFields_group h tags h_is₁ (by omega)
    have h_len₂ := congrArg List.length h_is₂
    rw [List.length_append] at h_len₂
    obtain ⟨out, h_run, h_out⟩ := ih (tags.lookup g.tag)
      (fun x hx => h_tags x (List.mem_cons_of_mem _ hx)) (n := n') h_is₂ (by omega) (by omega)
    refine ⟨out, ?_, h_out⟩
    have h_calls : siteCalls (SiteGroup.selected tags (g :: g' :: gs)) =
        siteCalls (g.taken (tags.lookup g.tag)) ++
          siteCalls (SiteGroup.selected tags (g' :: gs)) := List.map_append
    rw [h_body, h_group _ _ _ (h_tags g List.mem_cons_self), h_run, h_calls]
    rfl

/-- **The file.** -/
theorem geositeGroups_list {gs : List SiteGroup} (h_tags : ∀ g ∈ gs, g.tag ≠ "") {n : ℕ}
    (h_left : left is = encode (SiteGroup.listFields gs)) (h_size : (left is).length < maxSize)
    (h_n : (left is).length < n) :
    R.geositeGroups tags n is "" none = ⟨siteCalls (SiteGroup.selected tags gs), .ok ()⟩ := by
  obtain ⟨n, rfl⟩ := Nat.exists_eq_add_of_lt (Nat.lt_of_le_of_lt (Nat.zero_le _) h_n)
  rw [Nat.zero_add] at h_n ⊢
  cases gs with
  | nil =>
    obtain ⟨is', h_eof, _⟩ := h.done h_left
    simp only [geositeGroups, h_eof, io_ok_bind, if_true]
    rfl
  | cons g gs =>
    have h_left : left is =
        Field.encode ⟨1, .bytes (encode g.fields)⟩ ++ encode (SiteGroup.listFields gs) := h_left
    have h_len := congrArg List.length h_left
    have h_field : (encode g.fields).length <
        (Field.encode ⟨1, .bytes (encode g.fields)⟩).length := length_bytes_lt _ _
    rw [List.length_append] at h_len
    obtain ⟨is₁, is₂, _, h_eof, h_tag, h_type, h_is₂⟩ := h.header h_left (by decide) (by decide)
    obtain ⟨_, is₃, h_read, h_is₃⟩ := h.length h_is₂ (by omega)
    have h_len₃ := congrArg List.length h_is₃
    rw [List.length_append] at h_len₃
    obtain ⟨out, h_run, h_out⟩ := geositeFields_groups h tags none h_tags h_is₃
      (by omega) (h.rounds_gt is₃)
    obtain ⟨is₄, h_done, _⟩ := h.done h_out
    obtain ⟨n, rfl⟩ := Nat.exists_eq_add_of_lt (show 0 < n by omega)
    rw [Nat.zero_add]
    -- after the inner loop there is nothing left
    have h_rest : R.geositeGroups tags (n + 1) out.1 out.2.1 out.2.2 = ⟨[], .ok ()⟩ := by
      simp only [geositeGroups, h_done, io_ok_bind, if_true]
      rfl
    have h_round : R.geositeGroups tags (n + 1 + 1) is "" none =
        R.geositeFields tags (R.rounds is₃) is₃ "" none >>= fun out =>
          R.geositeGroups tags (n + 1) out.1 out.2.1 out.2.2 := by
      rw [geositeGroups, h_eof, io_ok_bind]
      dsimp only
      rw [if_neg Bool.false_ne_true, h_tag, io_ok_bind]
      dsimp only
      rw [h_read, io_ok_bind]
    rw [h_round, h_run, Trace.bind_of_ok rfl, h_rest]
    dsimp only
    rw [List.append_nil]

end Loops

end RouteWorld

/-! ### What the schema says -/

namespace Geosite

/-- The rule that a domain stands for, unless it is an expression. -/
def Domain.rule (d : Domain) : Option (String × MatchType) :=
  match d.type with
  | .plain => some (d.value, .subStr true)
  | .domain => some (d.value, .domain true)
  | .full => some (d.value, .full true)
  | .regex => none

/-- The expression that a domain stands for. -/
def Domain.expr (d : Domain) : Option String :=
  match d.type with
  | .regex => some d.value
  | _ => none

/-- The domains for an outbound tag: those of the groups that the map sends to it. -/
def domainsFor (tags : RouteWorld.GeositeTags) (siteGroup : List SiteGroup) (outboundTag : String) :
    List Domain :=
  (siteGroup.filter fun g => tags.lookup g.tag = some outboundTag).flatMap SiteGroup.domain

theorem Domain.rule_site (d : Domain) : d.site.rule = d.rule := by
  obtain ⟨type, value, attributes⟩ := d
  cases type <;> rfl

theorem Domain.expr_site (d : Domain) : d.site.expr = d.expr := by
  obtain ⟨type, value, attributes⟩ := d
  cases type <;> rfl

/-- The outbound tag of a domain is in the map. -/
theorem exists_entry_of_taken {tags : RouteWorld.GeositeTags} {g : SiteGroup} {tag : String}
    {d : Domain} (h : (tag, d) ∈ g.taken (tags.lookup g.tag)) :
    ∃ key, (⟨key, tag⟩ : Sigma fun _ : String => String) ∈ tags.entries := by
  unfold SiteGroup.taken at h
  cases h_tag : tags.lookup g.tag with
  | none =>
    rw [h_tag] at h
    cases h
  | some tag' =>
    rw [h_tag] at h
    obtain ⟨d', _, h_eq⟩ := List.mem_map.mp h
    obtain ⟨rfl, rfl⟩ := Prod.mk.inj h_eq
    exact ⟨g.tag, AList.mem_lookup_iff.mp h_tag⟩

/-- What is selected for a tag are the domains of its groups, in order. -/
theorem entriesAt_selected (tags : RouteWorld.GeositeTags) (siteGroup : List SiteGroup)
    (outboundTag : String) :
    entriesAt ((SiteGroup.selected tags siteGroup).map fun e => (e.1, e.2.site)) outboundTag =
      (domainsFor tags siteGroup outboundTag).map Domain.site := by
  induction siteGroup with
  | nil => rfl
  | cons g gs ih =>
    -- the domains of one group count for the outbound of its tag only
    have h_group : entriesAt ((g.taken (tags.lookup g.tag)).map fun e => (e.1, e.2.site))
        outboundTag =
          (if tags.lookup g.tag = some outboundTag then g.domain else []).map Domain.site := by
      unfold SiteGroup.taken entriesAt
      cases h_tag : tags.lookup g.tag with
      | none => rfl
      | some tag =>
        by_cases h_eq : tag = outboundTag
        · simp [h_eq, List.filter_map, Function.comp_def]
        · simp [h_eq, List.filter_map, Function.comp_def]
    have h_domains : domainsFor tags (g :: gs) outboundTag =
        (if tags.lookup g.tag = some outboundTag then g.domain else []) ++
          domainsFor tags gs outboundTag := by
      unfold domainsFor
      rw [List.filter_cons]
      by_cases h_tag : tags.lookup g.tag = some outboundTag
      · simp [h_tag]
      · simp [h_tag]
    rw [h_domains, List.map_append, ← h_group, ← ih]
    unfold entriesAt SiteGroup.selected
    rw [List.flatMap_cons, List.map_append, List.filter_append, List.map_append]

end Geosite

namespace RouteWorld

open Geosite

/-- **Reading a geosite file.** The file holds a list in its canonical encoding. Reading it makes a
matcher for each outbound tag, and then takes the domains of the groups whose tag is a key, in the
order of the file, and no others: each goes to the matcher or the expressions of its outbound tag,
behind what a builder has there. -/
theorem readGeositeFile_inserts {R : RouteWorld} {left : R.Input → List UInt8} (h : R.Streams left)
    {siteGroup : List SiteGroup} {file : List UInt8}
    (h_file : SiteGroup.encodeList siteGroup = some file) (h_tags : ∀ g ∈ siteGroup, g.tag ≠ "")
    {fileName : String} {is : R.Input} (h_open : R.openFile fileName = .ok is)
    (h_left : left is = file) (tags : GeositeTags) (useMph : Bool) :
    (R.readGeositeFile fileName tags useMph).result = .ok () ∧
      (R.readGeositeFile fileName tags useMph).calls =
        (R.hashOrder (tags.entries.map fun e => (e.1, e.2))).map
            (fun e => .ensureMatcher e.2 useMph) ++
          siteCalls (SiteGroup.selected tags siteGroup) ∧
      ∀ (p : Profile) (b : RouterBuilder),
        ∃ b', (R.readGeositeFile fileName tags useMph).calls.foldlM (RouterBuilder.apply p) b =
            .ok b' ∧
          RouterBuilder.Adds b b' (fun tag => (domainsFor tags siteGroup tag).filterMap Domain.rule)
            fun tag => (domainsFor tags siteGroup tag).filterMap Domain.expr := by
  unfold SiteGroup.encodeList at h_file
  split at h_file
  · next h_size =>
    obtain rfl := Option.some.inj h_file
    generalize h_es : R.hashOrder (tags.entries.map fun e => (e.1, e.2)) = es
    have h_run : R.readGeositeFile fileName tags useMph =
        ⟨es.map (fun e => .ensureMatcher e.2 useMph) ++
          siteCalls (SiteGroup.selected tags siteGroup), .ok ()⟩ := by
      have h_matchers : (es.forM fun tag => rule (.ensureMatcher tag.2 useMph)) =
          ⟨es.map fun e => .ensureMatcher e.2 useMph, .ok ()⟩ := Trace.forM_call es _
      unfold readGeositeFile
      rw [h_es, h_matchers, h_open]
      dsimp only
      rw [geositeGroups_list h tags h_tags h_left (by rw [h_left]; exact h_size) (h.rounds_gt is)]
      rfl
    rw [h_run]
    refine ⟨rfl, rfl, fun p b => ?_⟩
    obtain ⟨b₁, h_b₁, h_adds₁, h_keys⟩ := RouterBuilder.adds_ensureMatchers p useMph es b
    -- a domain that is taken has the outbound tag of an entry of the map
    have h_known : ∀ e ∈ (SiteGroup.selected tags siteGroup).map fun e => (e.1, e.2.site),
        e.1 ∈ b₁.domainMatchers.keys := by
      intro e h_e
      obtain ⟨⟨tag, d⟩, h_mem, rfl⟩ := List.mem_map.mp h_e
      obtain ⟨g, _, h_taken⟩ := List.mem_flatMap.mp h_mem
      obtain ⟨key, h_entry⟩ := exists_entry_of_taken h_taken
      have h_es : (key, tag) ∈ es := by
        rw [← h_es]
        exact (R.hashOrder_perm _).mem_iff.mpr (List.mem_map.mpr ⟨⟨key, tag⟩, h_entry, rfl⟩)
      exact h_keys _ h_es
    obtain ⟨b₂, h_b₂, h_adds₂⟩ := RouterBuilder.adds_siteDomains p _ b₁ h_known
    refine ⟨b₂, ?_, ?_⟩
    · rw [List.foldlM_append, h_b₁]
      show (siteCalls (SiteGroup.selected tags siteGroup)).foldlM (RouterBuilder.apply p) b₁ = _
      rw [List.map_map] at h_b₂
      exact h_b₂
    · have h_adds := h_adds₁.trans h_adds₂
      simp only [List.nil_append, entriesAt_selected, List.filterMap_map] at h_adds
      have h_rule : SiteDomain.rule ∘ Domain.site = Domain.rule := funext Domain.rule_site
      have h_expr : SiteDomain.expr ∘ Domain.site = Domain.expr := funext Domain.expr_site
      rwa [h_rule, h_expr] at h_adds
  · cases h_file

/-- Two groups, with a domain that has an attribute. -/
def adsAndCn : List SiteGroup :=
  [⟨"ADS", [⟨.plain, "ad", []⟩]⟩,
    ⟨"CN", [⟨.domain, "cn", [⟨"cn", some (.boolValue true)⟩]⟩, ⟨.regex, "^10", []⟩]⟩]

/-- Of two groups one is selected, with a domain and an expression. -/
theorem readGeositeFile_inserts_cn :
    ∃ b', (((overFiles fun _ => .ok (encode (SiteGroup.listFields adsAndCn))).readGeositeFile
        "geosite.dat" ((∅ : GeositeTags).insert "CN" "direct") false).calls).foldlM
          (RouterBuilder.apply .debug) .new = .ok b' ∧
      b'.rulesAt "direct" = [("cn", .domain true)] ∧ b'.exprsAt "direct" = ["^10"] := by
  have h_file : SiteGroup.encodeList adsAndCn = some (encode (SiteGroup.listFields adsAndCn)) := by
    decide +kernel
  have h_open : (overFiles fun _ => .ok (encode (SiteGroup.listFields adsAndCn))).openFile
      "geosite.dat" = .ok (encode (SiteGroup.listFields adsAndCn)) := rfl
  obtain ⟨_, _, h_builder⟩ := readGeositeFile_inserts overFiles_streams h_file (by decide)
    h_open rfl ((∅ : GeositeTags).insert "CN" "direct") false
  obtain ⟨b', h_run, h_adds⟩ := h_builder .debug .new
  have h_domains : domainsFor ((∅ : GeositeTags).insert "CN" "direct") adsAndCn "direct" =
      [⟨.domain, "cn", [⟨"cn", some (.boolValue true)⟩]⟩, ⟨.regex, "^10", []⟩] := rfl
  refine ⟨b', h_run, ?_, ?_⟩
  · rw [h_adds.rulesAt, h_domains]
    rfl
  · rw [h_adds.exprsAt, h_domains]
    rfl

end RouteWorld

end V2ray
