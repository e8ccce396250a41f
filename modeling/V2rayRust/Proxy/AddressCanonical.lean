import V2rayRust.Proxy.AddressDisplay

/-!
# Texts of addresses that are not canonical

What `Address::from_str` accepts, and what `to_string` makes of it. A socket address is read as such
only with its port, and everything else is split at its colons, of which the second one and what
comes after it are not looked at. So an IPv4 address without a port is a domain name, which becomes
a socket address when its text is read again (`fromStr_canonical_iff`).
-/

namespace V2ray

namespace Parser

variable {α β : Type}

/-! ### What is left is an end of the text -/

/-- What the parser leaves is an end of the text. -/
def Drops (p : Parser α) : Prop := ∀ s a s', p s = some (a, s') → s' <:+ s

theorem drops_bind {p : Parser α} {f : α → Parser β} (h : Drops p) (h_f : ∀ a, Drops (f a)) :
    Drops (p >>= f) := by
  intro s b s'' h_run
  obtain ⟨⟨a, s'⟩, h_p, h_run⟩ := Option.bind_eq_some_iff.mp h_run
  exact (h_f a s' b s'' h_run).trans (h s a s' h_p)

theorem drops_pure (a : α) : Drops (pure a : Parser α) := by
  rintro s a s' ⟨⟩
  exact List.suffix_rfl

/-- Reading a character leaves an end of the text. -/
theorem drops_readGivenChar (c : Char) : Drops (readGivenChar c) := by
  intro s a s' h
  cases s with
  | nil => cases h
  | cons c' s =>
    by_cases h_c : c' = c
    · subst h_c
      rw [readGivenChar_cons] at h
      cases h
      exact List.suffix_cons _ _
    · rw [readGivenChar_of_ne (by simpa using h_c)] at h
      cases h

theorem drops_readNumber (radix max : ℕ) (maxDigits : Option ℕ) (allowZeroPrefix : Bool) :
    Drops (readNumber radix max maxDigits allowZeroPrefix) := by
  intro s n s' h
  rw [rest_of_readNumber h]
  exact List.dropWhile_suffix _

theorem drops_readSeparator (sep : Char) (first : Bool) {inner : Parser α} (h : Drops inner) :
    Drops (readSeparator sep first inner) := by
  cases first with
  | true => exact h
  | false => exact drops_bind (drops_readGivenChar sep) fun _ => h

theorem drops_readOctets (left : ℕ) (first : Bool) : Drops (readOctets left first) := by
  induction left generalizing first with
  | zero => exact drops_pure []
  | succ left ih =>
    exact drops_bind (drops_readSeparator _ _ (drops_readNumber _ _ _ _)) fun _ =>
      drops_bind (ih false) fun _ => drops_pure _

theorem drops_readIpv4Addr : Drops readIpv4Addr :=
  drops_bind (drops_readOctets 4 true) fun _ => drops_pure _

theorem Drops.count_le {p : Parser α} (h : Drops p) {s s' : List Char} {a : α}
    (h_run : p s = some (a, s')) : s'.count ':' ≤ s.count ':' :=
  (h s a s' h_run).sublist.count_le ':'

/-! ### Colons -/

/-- What comes after a separator has a colon less. -/
theorem count_readSeparator {first : Bool} {inner : Parser α} (h : Drops inner) {s s' : List Char}
    {a : α} (h_run : readSeparator ':' first inner s = some (a, s')) :
    s'.count ':' + 1 ≤ s.count ':' + first.toNat := by
  cases first with
  | true =>
    exact Nat.add_le_add_right (h.count_le h_run) 1
  | false =>
    rw [readSeparator_false] at h_run
    obtain ⟨⟨_, t⟩, h_colon, h_run⟩ := Option.bind_eq_some_iff.mp h_run
    have h_t := h.count_le h_run
    cases s with
    | nil => cases h_colon
    | cons c s =>
      by_cases h_c : c = ':'
      · subst h_c
        rw [readGivenChar_cons] at h_colon
        cases h_colon
        rw [List.count_cons_self]
        exact Nat.succ_le_succ h_t
      · rw [readGivenChar_of_ne (by simpa using h_c)] at h_colon
        cases h_colon

/-- Between any two groups there is a colon. -/
theorem count_readGroups {left : ℕ} {first v4 : Bool} {s s' : List Char} {gs : List ℕ}
    (h : readGroups left first s = some ((gs, v4), s')) :
    s' <:+ s ∧ s'.count ':' + gs.length ≤ s.count ':' + v4.toNat + first.toNat := by
  induction left generalizing first s gs v4 s' with
  | zero =>
    cases h
    exact ⟨List.suffix_rfl, Nat.le_add_right _ _⟩
  | succ left ih =>
    rw [readGroups_succ] at h
    split at h
    · next v4' t h_ipv4 =>
      -- two groups, and one colon before them
      cases h
      split at h_ipv4
      · have h_count := count_readSeparator drops_readIpv4Addr h_ipv4
        refine ⟨drops_readSeparator _ _ drops_readIpv4Addr _ _ _ h_ipv4, ?_⟩
        show _ + 2 ≤ _ + 1 + _
        omega
      · cases h_ipv4
    · split at h
      · next group t h_group =>
        obtain ⟨⟨⟨gs', v4'⟩, t'⟩, h_rest, h_eq⟩ := Option.map_eq_some_iff.mp h
        cases h_eq
        obtain ⟨h_suffix, h_count⟩ := ih h_rest
        have h_drops : Drops readGroup := drops_readNumber _ _ _ _
        have h_colon := count_readSeparator h_drops h_group
        refine ⟨h_suffix.trans (drops_readSeparator _ _ h_drops _ _ _ h_group), ?_⟩
        rw [Bool.toNat_false] at h_count
        dsimp only
        rw [List.length_cons]
        omega
      · cases h
        exact ⟨List.suffix_rfl, Nat.le_add_right _ _⟩

/-- An IPv6 address has two colons. -/
theorem count_readIpv6Addr {s s' : List Char} {ip : ℕ} (h : readIpv6Addr s = some (ip, s')) :
    s'.count ':' + 2 ≤ s.count ':' := by
  rw [readIpv6Addr_eq] at h
  obtain ⟨⟨⟨head, headIpv4⟩, t⟩, h_head, h⟩ := Option.bind_eq_some_iff.mp h
  obtain ⟨h_suffix, h_count⟩ := count_readGroups h_head
  dsimp only at h
  split at h
  · next h_eight =>
    -- eight groups have seven separators, or six if an IPv4 address stands for the last two
    cases h
    have h_bool : headIpv4.toNat ≤ 1 := Bool.toNat_le headIpv4
    rw [h_eight, Bool.toNat_true] at h_count
    omega
  split at h
  · cases h
  · -- the two colons are read on their own
    obtain ⟨⟨_, t₁⟩, h_one, h⟩ := Option.bind_eq_some_iff.mp h
    obtain ⟨⟨_, t₂⟩, h_two, h⟩ := Option.bind_eq_some_iff.mp h
    obtain ⟨⟨⟨tail, v4⟩, t₃⟩, h_tail, h_eq⟩ := Option.map_eq_some_iff.mp h
    cases h_eq
    have h_skip : Drops (pure () : Parser Unit) := drops_pure ()
    -- one colon after the groups, one more right after it, none comes back
    have h_count₁ : t₁.count ':' + 1 ≤ t.count ':' + Bool.toNat false :=
      count_readSeparator h_skip (by rw [readSeparator_false, h_one]; rfl)
    have h_count₂ : t₂.count ':' + 1 ≤ t₁.count ':' + Bool.toNat false :=
      count_readSeparator h_skip (by rw [readSeparator_false, h_two]; rfl)
    have h_count₃ : t₃.count ':' ≤ t₂.count ':' :=
      (count_readGroups h_tail).1.sublist.count_le ':'
    have h_count₀ := h_suffix.sublist.count_le ':'
    rw [Bool.toNat_false] at h_count₁ h_count₂
    dsimp only
    omega

/-- So a text with one colon is no socket address of IPv6. -/
theorem readSocketAddrV6_eq_none {s : List Char} (h : s.count ':' ≤ 1) :
    readSocketAddrV6 s = none := by
  by_contra h_some
  obtain ⟨⟨addr, rest⟩, h_run⟩ := Option.ne_none_iff_exists'.mp h_some
  obtain ⟨⟨_, t⟩, h_open, h_run⟩ := Option.bind_eq_some_iff.mp h_run
  obtain ⟨⟨ip, t'⟩, h_ip, -⟩ := Option.bind_eq_some_iff.mp h_run
  have h_t := (drops_readGivenChar '[').count_le h_open
  have h_two := count_readIpv6Addr h_ip
  omega

/-! ### Texts up to a colon -/

/-- The parser does not look past a colon. -/
def Local (p : Parser α) : Prop :=
  ∀ s t, p (s ++ ':' :: t) = (p s).map fun x => (x.1, x.2 ++ ':' :: t)

/-- A character other than a colon is read the same before a colon. -/
theorem local_readGivenChar {c : Char} (h : c ≠ ':') : Local (readGivenChar c) := by
  intro s t
  cases s with
  | nil => exact readGivenChar_of_ne (by simpa using Ne.symm h)
  | cons c' s =>
    by_cases h_c : c' = c
    · subst h_c
      rw [List.cons_append, readGivenChar_cons, readGivenChar_cons]
      rfl
    · rw [List.cons_append, readGivenChar_of_ne (by simpa using h_c),
        readGivenChar_of_ne (by simpa using h_c)]
      rfl

theorem local_bind {p : Parser α} {f : α → Parser β} (h : Local p) (h_f : ∀ a, Local (f a)) :
    Local (p >>= f) := by
  intro s t
  rw [bind_apply, bind_apply, h s t]
  cases p s with
  | none => rfl
  | some x => exact h_f x.1 x.2 t

theorem local_pure (a : α) : Local (pure a : Parser α) := fun _ _ => rfl

/-- A number ends before a colon. -/
theorem local_readNumber (radix max : ℕ) (maxDigits : Option ℕ) (allowZeroPrefix : Bool) :
    Local (readNumber radix max maxDigits allowZeroPrefix) := by
  intro s t
  have h_take : (s ++ ':' :: t).takeWhile (fun c => (toDigit radix c).isSome) =
      s.takeWhile fun c => (toDigit radix c).isSome := by
    have h_colon : ((':' :: t).takeWhile fun c => (toDigit radix c).isSome) = [] := rfl
    rw [List.takeWhile_append, h_colon, List.append_nil]
    split
    · next h_all => exact ((List.takeWhile_prefix _).eq_of_length h_all).symm
    · rfl
  unfold readNumber
  dsimp only
  rw [h_take]
  -- no digit is read, before the colon or at it
  by_cases h_nil : (s.takeWhile fun c => (toDigit radix c).isSome) = []
  · rw [if_pos h_nil, if_pos h_nil]
    rfl
  · -- the first digit is one of `s`
    have h_ne : s ≠ [] := by
      rintro rfl
      exact h_nil rfl
    have h_le := (List.takeWhile_prefix (l := s) fun c => (toDigit radix c).isSome).length_le
    rw [if_neg h_nil, if_neg h_nil, List.head?_append_of_ne_nil _ h_ne,
      List.drop_append_of_le_length h_le]
    split
    · rfl
    split
    · rfl
    split <;> rfl

theorem local_readOctets (left : ℕ) (first : Bool) : Local (readOctets left first) := by
  induction left generalizing first with
  | zero => exact local_pure []
  | succ left ih =>
    refine local_bind ?_ fun _ => local_bind (ih false) fun _ => local_pure _
    cases first with
    | true => exact local_readNumber _ _ _ _
    | false => exact local_bind (local_readGivenChar (by decide)) fun _ => local_readNumber _ _ _ _

theorem local_readIpv4Addr : Local readIpv4Addr :=
  local_bind (local_readOctets 4 true) fun _ => local_pure _

end Parser

namespace Address

open V2ray.Parser

/-! ### Texts that are split -/

/-- `parse::<Ipv4Addr>` succeeds. -/
def IsIpv4 (s : List Char) : Prop := ∃ ip, readIpv4Addr s = some (ip, [])

/-- `parse::<Ipv6Addr>` succeeds. -/
def IsIpv6 (s : List Char) : Prop := ∃ ip, readIpv6Addr s = some (ip, [])

/-- The text `s` is a canonical one of the address `a`: the text of `a` is read as `a`, a domain
name is what `s` has before its port, and the literal of an IP address is not taken for a domain
name. -/
structure Canonical (s : String) (a : Address) : Prop where
  reparse : fromStr a.text = .ok a
  domain : ∀ d p, a = .domainNameAddress d p → ':' ∉ d.toList ∧
    (s = d ∧ p = 80 ∨
      ∃ port, s.toList = d.toList ++ ':' :: port ∧ u16FromStr port = some p.toNat)
  literal : IsIpv4 s.toList ∨ IsIpv6 s.toList → ∃ addr, a = .socketAddress addr

theorem takeWhile_of_notMem {l : List Char} (h : ':' ∉ l) : l.takeWhile (· ≠ ':') = l := by
  rw [List.takeWhile_eq_self_iff]
  intro c h_c
  simpa using fun h_eq : c = ':' => h (h_eq ▸ h_c)

/-- The parts of a text with a first colon. -/
theorem parts_of_toList {s : String} {d rest : List Char} (h_d : ':' ∉ d)
    (h : s.toList = d ++ ':' :: rest) :
    hostPart s = d ∧ portPart s = some (rest.takeWhile (· ≠ ':')) := by
  have h_pos : ∀ c ∈ d, decide (c ≠ ':') = true := by
    intro c h_c
    simpa using fun h_eq : c = ':' => h_d (h_eq ▸ h_c)
  constructor
  · unfold hostPart
    rw [h, List.takeWhile_append_of_pos h_pos, List.takeWhile_cons_of_neg (by simp),
      List.append_nil]
  · unfold portPart
    rw [h, List.dropWhile_append_of_pos h_pos, List.dropWhile_cons_of_neg (by simp)]

theorem colon_notMem_hostPart (s : String) : ':' ∉ hostPart s := by
  intro h
  simpa using List.mem_takeWhile_imp h

theorem head_dropWhile_colon {l rest : List Char} {c : Char}
    (h : l.dropWhile (· ≠ ':') = c :: rest) : c = ':' := by
  have h_head := List.head_dropWhile_not (fun c : Char => decide (c ≠ ':')) (l := l)
    (by rw [h]; exact List.cons_ne_nil _ _)
  simp only [h, List.head_cons] at h_head
  simpa using h_head

/-- A text is its host part and its port part, if there is one, with only a colon after it. -/
theorem toList_eq_of_portPart (s : String) :
    (portPart s = none ∧ s.toList = hostPart s) ∨
    ∃ port more, portPart s = some port ∧ s.toList = hostPart s ++ ':' :: (port ++ more) ∧
      ':' ∉ port ∧ (more = [] ∨ more.head? = some ':') := by
  have h_split : hostPart s ++ s.toList.dropWhile (· ≠ ':') = s.toList :=
    List.takeWhile_append_dropWhile
  unfold portPart
  cases h_drop : s.toList.dropWhile (· ≠ ':') with
  | nil =>
    rw [h_drop, List.append_nil] at h_split
    exact .inl ⟨rfl, h_split.symm⟩
  | cons c rest =>
    have h_c : c = ':' := head_dropWhile_colon h_drop
    refine .inr ⟨rest.takeWhile (· ≠ ':'), rest.dropWhile (· ≠ ':'), rfl, ?_, ?_, ?_⟩
    · rw [List.takeWhile_append_dropWhile, ← h_c, ← h_drop, h_split]
    · intro h_mem
      simpa using List.mem_takeWhile_imp h_mem
    · cases h_more : rest.dropWhile (· ≠ ':') with
      | nil => exact .inl rfl
      | cons c' more => exact .inr (congrArg some (head_dropWhile_colon h_more))

/-- The digits of a port, behind the sign if there is one. -/
theorem u16FromStr_eq (s : List Char) : ∃ digits, (digits = s ∨ '+' :: digits = s) ∧
    (s.head? ≠ some '+' → digits = s) ∧
    u16FromStr s =
      if digits ≠ [] ∧ digits.all Char.isDigit ∧ ofDigits 10 digits < 65536 then
        some (ofDigits 10 digits)
      else none := by
  cases s with
  | nil => exact ⟨[], .inl rfl, fun _ => rfl, rfl⟩
  | cons c s =>
    by_cases h_c : c = '+'
    · subst h_c
      exact ⟨s, .inr rfl, fun h => absurd rfl h, rfl⟩
    · refine ⟨c :: s, .inl rfl, fun _ => rfl, ?_⟩
      simp [u16FromStr, h_c]

/-- A port is a number of 16 bits, and has no colon. -/
theorem of_u16FromStr {port : List Char} {n : ℕ} (h : u16FromStr port = some n) :
    n < 65536 ∧ ':' ∉ port := by
  obtain ⟨digits, h_port, -, h_eq⟩ := u16FromStr_eq port
  rw [h_eq] at h
  split at h
  · next h_ok =>
    cases h
    have h_digits : ':' ∉ digits := by
      intro h_mem
      exact absurd (List.all_eq_true.mp h_ok.2.1 ':' h_mem) (by decide)
    refine ⟨h_ok.2.2, ?_⟩
    rcases h_port with rfl | rfl
    · exact h_digits
    · exact fun h_mem => h_digits ((List.mem_cons.mp h_mem).resolve_left (by decide))
  · cases h

/-- A port is read back from its digits. -/
theorem u16FromStr_decimal (p : UInt16) : u16FromStr (decimal p.toNat) = some p.toNat := by
  have h_digit : ∀ c ∈ decimal p.toNat, c.isDigit :=
    fun c h_c => Nat.isDigit_of_mem_toDigits (by decide) (by decide) h_c
  have h_value : ofDigits 10 (decimal p.toNat) = p.toNat :=
    ofDigits_toDigits (by decide) (by decide)
  obtain ⟨digits, -, h_same, h_eq⟩ := u16FromStr_eq (decimal p.toNat)
  -- no number begins with a sign
  have h_sign : (decimal p.toNat).head? ≠ some '+' := by
    intro h_head
    have h_plus := h_digit '+' (List.mem_of_mem_head? h_head)
    cases h_plus
  rw [h_eq, h_same h_sign, h_value,
    if_pos ⟨Nat.toDigits_ne_nil, List.all_eq_true.mpr h_digit, p.toNat_lt⟩]

/-! ### IP addresses as host names -/

/-- An IPv4 address has no colon. -/
theorem colon_notMem_of_isIpv4 {s : List Char} (h : IsIpv4 s) : ':' ∉ s := by
  intro h_mem
  obtain ⟨front, back, rfl⟩ := List.append_of_mem h_mem
  obtain ⟨ip, h_run⟩ := h
  rw [local_readIpv4Addr front back] at h_run
  obtain ⟨x, -, h_x⟩ := Option.map_eq_some_iff.mp h_run
  have h_rest := congrArg Prod.snd h_x
  simp at h_rest

/-- A host name with its port is a socket address if and only if it is an IPv4 address. -/
theorem isSome_fromStr_host {d : List Char} (h_d : ':' ∉ d) (port : UInt16) :
    (SocketAddr.fromStr (String.ofList (d ++ ':' :: decimal port.toNat))).isSome ↔ IsIpv4 d := by
  have h_port : ':' ∉ decimal port.toNat := (of_u16FromStr (u16FromStr_decimal port)).2
  have h_count : (d ++ ':' :: decimal port.toNat).count ':' ≤ 1 := by
    rw [List.count_append, List.count_cons_self, List.count_eq_zero.mpr h_d,
      List.count_eq_zero.mpr h_port]
  rw [SocketAddr.fromStr_eq, String.toList_ofList, readSocketAddrV6_eq_none h_count, Option.or_none]
  unfold readSocketAddrV4
  rw [bind_apply, local_readIpv4Addr]
  cases h_ip : readIpv4Addr d with
  | none =>
    refine iff_of_false (by simp) ?_
    rintro ⟨ip, h_run⟩
    rw [h_ip] at h_run
    cases h_run
  | some x =>
    obtain ⟨ip, rest⟩ := x
    rw [Option.map_some, Option.bind_some, bind_apply]
    dsimp only
    cases rest with
    | nil =>
      rw [List.nil_append, readPort_text]
      exact iff_of_true rfl ⟨ip, h_ip⟩
    | cons c rest =>
      -- what is left of the name is no port
      have h_c : c ≠ ':' := by
        rintro rfl
        exact h_d ((drops_readIpv4Addr d ip _ h_ip).subset List.mem_cons_self)
      have h_none : readPort (c :: rest ++ ':' :: decimal port.toNat) = none := by
        unfold readPort
        rw [bind_apply, List.cons_append, readGivenChar_of_ne (by simpa using h_c)]
        rfl
      rw [h_none]
      refine iff_of_false (by simp) ?_
      rintro ⟨ip', h_run⟩
      rw [h_ip] at h_run
      cases h_run

/-- No socket address is read with a flow info. -/
theorem flowinfo_of_fromStr {s : String} {addr : SocketAddr}
    (h : SocketAddr.fromStr s = some addr) :
    ∀ ip port flowinfo scopeId, addr = .v6 ip port flowinfo scopeId → flowinfo = 0 := by
  rintro ip port flowinfo scopeId rfl
  rw [SocketAddr.fromStr_eq] at h
  obtain ⟨⟨addr, rest⟩, h_read, h⟩ := Option.bind_eq_some_iff.mp h
  split at h
  · cases h
    rcases Option.or_eq_some_iff.mp h_read with h_v4 | ⟨-, h_v6⟩
    · obtain ⟨_, -, h_v4⟩ := Option.bind_eq_some_iff.mp h_v4
      obtain ⟨_, -, h_v4⟩ := Option.bind_eq_some_iff.mp h_v4
      cases h_v4
    · obtain ⟨_, -, h_v6⟩ := Option.bind_eq_some_iff.mp h_v6
      obtain ⟨_, -, h_v6⟩ := Option.bind_eq_some_iff.mp h_v6
      obtain ⟨_, -, h_v6⟩ := Option.bind_eq_some_iff.mp h_v6
      obtain ⟨_, -, h_v6⟩ := Option.bind_eq_some_iff.mp h_v6
      obtain ⟨_, -, h_v6⟩ := Option.bind_eq_some_iff.mp h_v6
      cases h_v6
      rfl
  · cases h

/-! ### Texts and their addresses -/

/-- The text of a domain name is read as this domain name, unless the name is an IPv4 address. -/
theorem fromStr_text_domainName {d : List Char} (h_d : ':' ∉ d) (p : UInt16) :
    fromStr (domainNameAddress (String.ofList d) p).text =
        .ok (.domainNameAddress (String.ofList d) p) ↔ ¬ IsIpv4 d := by
  have h_text : (domainNameAddress (String.ofList d) p).text =
      String.ofList (d ++ ':' :: decimal p.toNat) := by
    show String.ofList ((String.ofList d).toList ++ _) = _
    rw [String.toList_ofList]
  rw [h_text, ← isSome_fromStr_host h_d p]
  generalize h_s : String.ofList (d ++ ':' :: decimal p.toNat) = s
  have h_list : s.toList = d ++ ':' :: decimal p.toNat := by rw [← h_s, String.toList_ofList]
  obtain ⟨h_host, h_part⟩ := parts_of_toList h_d h_list
  rw [takeWhile_of_notMem (of_u16FromStr (u16FromStr_decimal p)).2] at h_part
  unfold fromStr
  cases SocketAddr.fromStr s with
  | some addr => exact iff_of_false (fun h => by cases h) fun h => h rfl
  | none =>
    rw [h_part]
    dsimp only
    rw [u16FromStr_decimal, h_host]
    simp

/-- What stands in the text besides the domain name is a port, if there is at most one colon. -/
theorem domain_iff {s : String} {port : UInt16} (h_socket : SocketAddr.fromStr s = none)
    (h : fromStr s = .ok (.domainNameAddress (String.ofList (hostPart s)) port)) :
    (s = String.ofList (hostPart s) ∧ port = 80 ∨
      ∃ p, s.toList = hostPart s ++ ':' :: p ∧ u16FromStr p = some port.toNat) ↔
      s.toList.count ':' ≤ 1 := by
  have h_host := List.count_eq_zero.mpr (colon_notMem_hostPart s)
  unfold fromStr at h
  rw [h_socket] at h
  dsimp only at h
  rcases toList_eq_of_portPart s with ⟨h_none, h_list⟩ | ⟨p, more, h_some, h_list, h_p, h_more⟩
  · -- no port, so the host is all of the text
    rw [h_none] at h
    cases h
    refine iff_of_true (.inl ⟨?_, rfl⟩) ?_
    · rw [← h_list, String.ofList_toList]
    · rw [h_list, h_host]
      exact Nat.zero_le 1
  · -- a port
    rw [h_some] at h
    dsimp only at h
    cases h_n : u16FromStr p with
    | none =>
      rw [h_n] at h
      cases h
    | some n =>
      rw [h_n] at h
      cases h
      obtain ⟨h_lt, -⟩ := of_u16FromStr h_n
      have h_toNat : (UInt16.ofNat n).toNat = n := UInt16.toNat_ofNat_of_lt' h_lt
      rw [h_toNat, h_list]
      -- nothing behind the port: the colons of the text are that one
      rcases h_more with rfl | h_more
      · refine iff_of_true (.inr ⟨p, by rw [List.append_nil], h_n⟩) ?_
        rw [List.append_nil, List.count_append, List.count_cons_self, h_host,
          List.count_eq_zero.mpr h_p]
      · -- a second colon
        have h_mem : ':' ∈ more := List.mem_of_mem_head? h_more
        refine iff_of_false ?_ ?_
        · rintro (⟨h_eq, -⟩ | ⟨p', h_eq, h_p'⟩)
          · refine colon_notMem_hostPart s ?_
            rw [← String.toList_ofList (l := hostPart s), ← h_eq, h_list]
            simp
          · have h_same := List.cons.inj (List.append_cancel_left h_eq)
            refine (of_u16FromStr h_p').2 ?_
            rw [← h_same.2]
            exact List.mem_append_right p h_mem
        · rw [List.count_append, List.count_cons_self, List.count_append]
          have h_pos := List.count_pos_iff.mpr h_mem
          omega

/-- **Canonical texts.** A text that is accepted is a canonical one of its address if and only if it
is a socket address, or has at most one colon and no IPv4 address before it. -/
theorem fromStr_canonical_iff {s : String} {a : Address} (h : fromStr s = .ok a) :
    Canonical s a ↔
      (SocketAddr.fromStr s).isSome ∨ s.toList.count ':' ≤ 1 ∧ ¬ IsIpv4 (hostPart s) := by
  -- a socket address, whose text is read as the same one
  rcases fromStr_eq_ok h with ⟨addr, h_addr, rfl⟩ | ⟨h_addr, port, rfl⟩
  · have h_text : SocketAddr.fromStr (socketAddress addr).text = some addr :=
      SocketAddr.fromStr_text (flowinfo_of_fromStr h_addr)
    have h_reparse : fromStr (socketAddress addr).text = .ok (.socketAddress addr) := by
      unfold fromStr
      rw [h_text]
    exact iff_of_true ⟨h_reparse, by rintro d p ⟨⟩, fun _ => ⟨addr, rfl⟩⟩
      (.inl (by rw [h_addr]; rfl))
  · -- a domain name, and a port that may be the default one
    have h_host := colon_notMem_hostPart s
    have h_none : ¬ (SocketAddr.fromStr s).isSome := by
      rw [h_addr]
      exact Bool.false_ne_true
    rw [or_iff_right h_none, ← domain_iff h_addr h, ← fromStr_text_domainName h_host port]
    constructor
    · intro h_canonical
      refine ⟨?_, h_canonical.reparse⟩
      have h_domain := (h_canonical.domain _ _ rfl).2
      rwa [String.toList_ofList] at h_domain
    · rintro ⟨h_domain, h_reparse⟩
      have h_count := (domain_iff h_addr h).mp h_domain
      have h_ipv4 := (fromStr_text_domainName h_host port).mp h_reparse
      refine ⟨h_reparse, ?_, ?_⟩
      · rintro d p ⟨⟩
        rw [String.toList_ofList]
        exact ⟨h_host, h_domain⟩
      · -- the literal of an IP address would be all of the host name, or have two colons
        rintro (h_literal | ⟨ip, h_literal⟩)
        · refine absurd ?_ h_ipv4
          rw [hostPart, takeWhile_of_notMem (colon_notMem_of_isIpv4 h_literal)]
          exact h_literal
        · have h_two := count_readIpv6Addr h_literal
          rw [List.count_nil] at h_two
          omega

/-- A domain name with its port. -/
theorem fromStr_canonical_exampleOrg :
    Canonical "example.org:443" (.domainNameAddress "example.org" 443) :=
  (fromStr_canonical_iff (by decide +kernel)).mpr (.inr ⟨by decide +kernel, by
    rintro ⟨ip, h_ip⟩
    have h_none : readIpv4Addr (hostPart "example.org:443") = none := by decide +kernel
    rw [h_none] at h_ip
    cases h_ip⟩)

/-- An IPv4 address without a port is a domain name, and its text is none. -/
theorem fromStr_canonical_ipv4 :
    fromStr "1.2.3.4" = .ok (.domainNameAddress "1.2.3.4" 80) ∧
    ¬ ∀ s a, fromStr s = .ok a → Canonical s a := by
  have h_accepted : fromStr "1.2.3.4" = .ok (.domainNameAddress "1.2.3.4" 80) := by decide +kernel
  refine ⟨h_accepted, fun h => ?_⟩
  have h_reparse := (h _ _ h_accepted).reparse
  revert h_reparse
  decide +kernel

end Address

end V2ray
