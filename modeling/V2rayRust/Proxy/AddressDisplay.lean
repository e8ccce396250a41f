import V2rayRust.Proxy.AddressText

/-!
# Addresses as text

`Display` for `Address`, with that of the socket addresses of the standard library (`core::net`),
and the way back: what is displayed of a socket address is read as this address
(`fromStr_text`).

A parser goes on where the one before it has stopped, so for each part of a text, from digits to
groups, it is proved that it is read back when something comes after it that it does not go on with
(`Stops`). An IPv6 address is written in one of three ways, by what its segments are, and each of
them is read back.
-/

namespace V2ray

/-! ### Text -/

/-- `{}` of an unsigned number -/
def decimal (n : ℕ) : List Char := Nat.toDigits 10 n

/-- `{:x}` of an unsigned number -/
def hex (n : ℕ) : List Char := Nat.toDigits 16 n

namespace IpAddr

/-- `Display` for `Ipv4Addr`, of the number of the address -/
def ipv4Text (ip : ℕ) : List Char :=
  decimal (ip / 2 ^ 24 % 256) ++ '.' :: (decimal (ip / 2 ^ 16 % 256) ++
    '.' :: (decimal (ip / 2 ^ 8 % 256) ++ '.' :: decimal (ip % 256)))

/-- `n` digits in base 65536, the first one first. -/
def digits (n ip : ℕ) : List ℕ := (List.range n).map fun i => ip / 65536 ^ (n - 1 - i) % 65536

/-- `segments` -/
def segments (ip : BitVec 128) : List ℕ := digits 8 ip.toNat

/-- A run of segments. -/
structure Span where
  start : ℕ
  len : ℕ

/-- The loop that looks for the longest run of zeros. -/
def zeroesLoop : ℕ → Span → Span → List ℕ → Span
  | _, _, longest, [] => longest
  | i, current, longest, segment :: segments =>
    if segment = 0 then
      let current := ⟨if current.len = 0 then i else current.start, current.len + 1⟩
      zeroesLoop (i + 1) current (if longest.len < current.len then current else longest) segments
    else zeroesLoop (i + 1) ⟨0, 0⟩ longest segments

def zeroes (segments : List ℕ) : Span := zeroesLoop 0 ⟨0, 0⟩ ⟨0, 0⟩ segments

/-- `fmt_subslice` -/
def fmtSubslice : List ℕ → List Char
  | [] => []
  | first :: tail => hex first ++ tail.flatMap fun segment => ':' :: hex segment

/-- `Display` for `Ipv6Addr` -/
def ipv6Text (ip : BitVec 128) : List Char :=
  let segments := segments ip
  -- `to_ipv4_mapped`
  if segments.take 6 = [0, 0, 0, 0, 0, 0xFFFF] then
    "::ffff:".toList ++ ipv4Text (ip.toNat % 2 ^ 32)
  else
    let zeroes := zeroes segments
    if 1 < zeroes.len then
      fmtSubslice (segments.take zeroes.start) ++
        ':' :: ':' :: fmtSubslice (segments.drop (zeroes.start + zeroes.len))
    else fmtSubslice segments

end IpAddr

/-- `Display` for `SocketAddr` -/
def SocketAddr.text : SocketAddr → List Char
  | .v4 ip port => IpAddr.ipv4Text ip.toNat ++ ':' :: decimal port.toNat
  | .v6 ip port _ scopeId =>
    '[' :: (IpAddr.ipv6Text ip ++
      ((if scopeId = 0 then [] else '%' :: decimal scopeId.toNat) ++
        ']' :: ':' :: decimal port.toNat))

/-- `to_string` -/
def Address.text : Address → String
  | .socketAddress addr => String.ofList addr.text
  | .domainNameAddress name port => String.ofList (name.toList ++ ':' :: decimal port.toNat)

example : (Address.socketAddress (.v6 0x20010DB8000000000001000000000001 443 0 7)).text =
    "[2001:db8::1:0:0:1%7]:443" := by decide +kernel

namespace Parser

/-! ### Digits -/

theorem toDigit_digitChar {radix d : ℕ} (h : d < radix) (h_radix : radix ≤ 16) :
    toDigit radix (Nat.digitChar d) = some d := by
  have h_value : ∀ d < 16, toDigit 16 (Nat.digitChar d) = some d := by decide
  have h_d := h_value d (Nat.lt_of_lt_of_le h h_radix)
  unfold toDigit at h_d ⊢
  rw [Option.filter_eq_some_iff] at h_d ⊢
  exact ⟨h_d.1, by simpa using h⟩

/-- Digits are digits in their radix. -/
theorem isSome_toDigit {radix n : ℕ} (h_two : 1 < radix) (h_radix : radix ≤ 16) :
    ∀ c ∈ Nat.toDigits radix n, (toDigit radix c).isSome := by
  induction n using Nat.strongRecOn with
  | ind n ih =>
    rw [Nat.toDigits_eq_if h_two]
    split
    · next h_lt =>
      intro c h_c
      rw [List.mem_singleton.mp h_c, toDigit_digitChar h_lt h_radix]
      rfl
    · next h_ge =>
      intro c h_c
      have h_n : 0 < n := by omega
      rcases List.mem_append.mp h_c with h_c | h_c
      · exact ih _ (Nat.div_lt_self h_n h_two) c h_c
      · rw [List.mem_singleton.mp h_c,
          toDigit_digitChar (Nat.mod_lt n (Nat.lt_trans Nat.zero_lt_one h_two)) h_radix]
        rfl

theorem ofDigits_concat (radix : ℕ) (cs : List Char) (c : Char) :
    ofDigits radix (cs ++ [c]) = ofDigits radix cs * radix + (toDigit radix c).getD 0 := by
  unfold ofDigits
  rw [List.foldl_append]
  rfl

/-- A number is read back from its digits. -/
theorem ofDigits_toDigits {radix n : ℕ} (h_two : 1 < radix) (h_radix : radix ≤ 16) :
    ofDigits radix (Nat.toDigits radix n) = n := by
  induction n using Nat.strongRecOn with
  | ind n ih =>
    rw [Nat.toDigits_eq_if h_two]
    split
    · next h_lt =>
      show 0 * radix + _ = n
      rw [toDigit_digitChar h_lt h_radix, Nat.zero_mul, Nat.zero_add]
      rfl
    · next h_ge =>
      have h_n : 0 < n := by omega
      rw [ofDigits_concat, ih _ (Nat.div_lt_self h_n h_two),
        toDigit_digitChar (Nat.mod_lt n (Nat.lt_trans Nat.zero_lt_one h_two)) h_radix,
        Nat.mul_comm]
      exact Nat.div_add_mod n radix

/-- No number but zero begins with a zero. -/
theorem length_toDigits_of_head {radix n : ℕ} (h_two : 1 < radix)
    (h : (Nat.toDigits radix n).head? = some '0') : (Nat.toDigits radix n).length ≤ 1 := by
  induction n using Nat.strongRecOn with
  | ind n ih =>
    rw [Nat.toDigits_eq_if h_two] at h ⊢
    split
    · exact Nat.le_refl 1
    · next h_ge =>
      rw [if_neg h_ge, List.head?_append_of_ne_nil _ Nat.toDigits_ne_nil] at h
      have h_n : 0 < n := by omega
      have h_one := ih _ (Nat.div_lt_self h_n h_two) h
      -- the first digit is all of what is above the last one
      have h_lt : n / radix < radix := by
        simpa using (Nat.length_toDigits_le_iff h_two Nat.one_pos).mp h_one
      rw [Nat.toDigits_of_lt_base h_lt] at h
      have h_zero : n / radix = 0 := by simpa using h
      have h_pos : 0 < n / radix :=
        Nat.div_pos (Nat.le_of_not_lt h_ge) (Nat.lt_trans Nat.zero_lt_one h_two)
      omega

/-- **A number is read back**, when no further digit comes after it. -/
theorem readNumber_toDigits {radix max n : ℕ} {maxDigits : Option ℕ} {allowZeroPrefix : Bool}
    {rest : List Char} (h_two : 1 < radix) (h_radix : radix ≤ 16) (h_max : n ≤ max)
    (h_digits : ∀ k ∈ maxDigits, (Nat.toDigits radix n).length ≤ k)
    (h_rest : ∀ c ∈ rest.head?, toDigit radix c = none) :
    readNumber radix max maxDigits allowZeroPrefix (Nat.toDigits radix n ++ rest) =
      some (n, rest) := by
  have h_take : (Nat.toDigits radix n ++ rest).takeWhile (fun c => (toDigit radix c).isSome) =
      Nat.toDigits radix n := by
    rw [List.takeWhile_append_of_pos (isSome_toDigit h_two h_radix)]
    cases rest with
    | nil => exact List.append_nil _
    | cons c rest =>
      have h_c : toDigit radix c = none := h_rest c rfl
      rw [List.takeWhile_cons_of_neg (by simp [h_c]), List.append_nil]
  -- a number of more than one digit does not begin with 0
  have h_zero : ¬ ((!allowZeroPrefix && decide ((Nat.toDigits radix n ++ rest).head? = some '0') &&
      decide (1 < (Nat.toDigits radix n).length)) = true) := by
    rw [List.head?_append_of_ne_nil _ Nat.toDigits_ne_nil]
    simp only [Bool.and_eq_true, decide_eq_true_eq]
    rintro ⟨⟨-, h_head⟩, h_long⟩
    exact Nat.not_lt_of_le (length_toDigits_of_head h_two h_head) h_long
  have h_any : ¬ (maxDigits.any (· < (Nat.toDigits radix n).length) = true) := by
    cases maxDigits with
    | none => simp
    | some k => simpa using h_digits k rfl
  unfold readNumber
  dsimp only
  rw [h_take, if_neg Nat.toDigits_ne_nil, if_neg h_any, ofDigits_toDigits h_two h_radix,
    List.drop_left]
  split
  · next h_prefix => exact absurd (by simpa using h_prefix) h_zero
  · exact if_neg (Nat.not_lt_of_le h_max)

/-! ### Parsers -/

variable {α β : Type}

theorem bind_apply (p : Parser α) (f : α → Parser β) (s : List Char) :
    (p >>= f) s = (p s).bind fun x => f x.1 x.2 := rfl

theorem readSeparator_true (sep : Char) (inner : Parser α) : readSeparator sep true inner = inner :=
  rfl

theorem readSeparator_false (sep : Char) (inner : Parser α) (s : List Char) :
    readSeparator sep false inner s = (readGivenChar sep s).bind fun x => inner x.2 := rfl

theorem readGivenChar_cons (c : Char) (s : List Char) : readGivenChar c (c :: s) = some ((), s) :=
  if_pos rfl

theorem readGivenChar_of_ne {c : Char} {s : List Char} (h : s.head? ≠ some c) :
    readGivenChar c s = none := by
  cases s with
  | nil => rfl
  | cons c' s => exact if_neg fun h_c => h (congrArg some h_c)

theorem attempt_of_some {p : Parser α} {s s' : List Char} {a : α} (h : p s = some (a, s')) :
    attempt p s = some (some a, s') := by
  unfold attempt
  rw [h]

theorem attempt_of_none {p : Parser α} {s : List Char} (h : p s = none) :
    attempt p s = some (none, s) := by
  unfold attempt
  rw [h]

/-! ### IPv4 -/

/-- One octet. -/
def readOctet : Parser ℕ := readNumber 10 0xFF (some 3) false

theorem readOctets_succ (left : ℕ) (first : Bool) (s : List Char) :
    readOctets (left + 1) first s = (readSeparator '.' first readOctet s).bind fun x =>
      (readOctets left false x.2).map fun y => (x.1 :: y.1, y.2) := by
  rw [readOctets, bind_apply]
  congr 1
  funext x
  rw [bind_apply]
  cases readOctets left false x.2 <;> rfl

theorem readOctet_decimal {n : ℕ} {rest : List Char} (h : n < 256)
    (h_rest : ∀ c ∈ rest.head?, toDigit 10 c = none) :
    readOctet (decimal n ++ rest) = some (n, rest) := by
  refine readNumber_toDigits (by decide) (by decide) (Nat.le_of_lt_succ h) ?_ h_rest
  rintro k ⟨⟩
  exact (Nat.length_toDigits_le_iff (by decide) (by decide)).mpr (Nat.lt_trans h (by decide))

/-- The octets after the first one, each with its dot. -/
theorem readOctets_text {octets : List ℕ} {rest : List Char} (h : ∀ n ∈ octets, n < 256)
    (h_rest : ∀ c ∈ rest.head?, toDigit 10 c = none) :
    readOctets octets.length false (octets.flatMap (fun n => '.' :: decimal n) ++ rest) =
      some (octets, rest) := by
  induction octets with
  | nil => rfl
  | cons n octets ih =>
    have h_next : ∀ c ∈ (octets.flatMap (fun n => '.' :: decimal n) ++ rest).head?,
        toDigit 10 c = none := by
      cases octets with
      | nil => exact h_rest
      | cons n octets =>
        rintro c ⟨⟩
        decide
    rw [List.length_cons, readOctets_succ, readSeparator_false, List.flatMap_cons,
      List.append_assoc, List.cons_append, readGivenChar_cons, Option.bind_some,
      readOctet_decimal (h n List.mem_cons_self) h_next, Option.bind_some,
      ih fun n h_n => h n (List.mem_cons_of_mem _ h_n)]
    rfl

theorem readIpv4Addr_eq (s : List Char) :
    readIpv4Addr s = (readOctets 4 true s).map fun x =>
      (x.1.foldl (fun v octet => v * 256 + octet) 0, x.2) := by
  unfold readIpv4Addr
  rw [bind_apply]
  cases readOctets 4 true s <;> rfl

/-- **An IPv4 address is read back.** -/
theorem readIpv4Addr_text {ip : ℕ} {rest : List Char} (h : ip < 2 ^ 32)
    (h_rest : ∀ c ∈ rest.head?, toDigit 10 c = none) :
    readIpv4Addr (IpAddr.ipv4Text ip ++ rest) = some (ip, rest) := by
  have h_text : IpAddr.ipv4Text ip ++ rest = decimal (ip / 2 ^ 24 % 256) ++
      ([ip / 2 ^ 16 % 256, ip / 2 ^ 8 % 256, ip % 256].flatMap (fun n => '.' :: decimal n) ++
        rest) := by
    simp [IpAddr.ipv4Text]
  have h_lt : ∀ n ∈ [ip / 2 ^ 16 % 256, ip / 2 ^ 8 % 256, ip % 256], n < 256 := by
    simp only [List.forall_mem_cons]
    exact ⟨Nat.mod_lt _ (by decide), Nat.mod_lt _ (by decide), Nat.mod_lt _ (by decide),
      fun _ h_n => by cases h_n⟩
  have h_octets := readOctets_text h_lt h_rest
  rw [readIpv4Addr_eq, h_text, readOctets_succ, readSeparator_true,
    readOctet_decimal (Nat.mod_lt _ (by decide)) (by rintro c ⟨⟩; decide), Option.bind_some]
  dsimp only
  rw [show (3 : ℕ) = [ip / 2 ^ 16 % 256, ip / 2 ^ 8 % 256, ip % 256].length from rfl, h_octets]
  simp only [Option.map_some, List.foldl_cons, List.foldl_nil]
  congr 2
  omega

/-- What a number leaves. -/
theorem rest_of_readNumber {radix max n : ℕ} {maxDigits : Option ℕ} {allowZeroPrefix : Bool}
    {s rest : List Char} (h : readNumber radix max maxDigits allowZeroPrefix s = some (n, rest)) :
    rest = s.dropWhile fun c => (toDigit radix c).isSome := by
  unfold readNumber at h
  dsimp only at h
  split at h
  · cases h
  split at h
  · cases h
  split at h
  · cases h
  split at h
  · cases h
  · cases h
    calc s.drop (s.takeWhile fun c => (toDigit radix c).isSome).length
        = ((s.takeWhile fun c => (toDigit radix c).isSome) ++
            s.dropWhile fun c => (toDigit radix c).isSome).drop
              (s.takeWhile fun c => (toDigit radix c).isSome).length := by
          rw [List.takeWhile_append_dropWhile]
      _ = s.dropWhile fun c => (toDigit radix c).isSome := List.drop_left

/-- Digits that go on with something other than a dot are no IPv4 address. -/
theorem readIpv4Addr_eq_none {s : List Char}
    (h : (s.dropWhile fun c => (toDigit 10 c).isSome).head? ≠ some '.') :
    readIpv4Addr s = none := by
  rw [readIpv4Addr_eq, readOctets_succ, readSeparator_true]
  cases h_octet : readOctet s with
  | none => rfl
  | some x =>
    rw [Option.bind_some, rest_of_readNumber h_octet, readOctets_succ, readSeparator_false,
      readGivenChar_of_ne h]
    rfl

/-! ### IPv6 -/

/-- One group. -/
def readGroup : Parser ℕ := readNumber 16 0xFFFF (some 4) true

theorem readGroup_hex {n : ℕ} {rest : List Char} (h : n < 65536)
    (h_rest : ∀ c ∈ rest.head?, toDigit 16 c = none) :
    readGroup (hex n ++ rest) = some (n, rest) := by
  refine readNumber_toDigits (by decide) (by decide) (Nat.le_of_lt_succ h) ?_ h_rest
  rintro k ⟨⟩
  exact (Nat.length_toDigits_le_iff (by decide) (by decide)).mpr h

/-- The rest of a loop, behind the attempt at a group. -/
theorem readGroups_group (left : ℕ) (first : Bool) (s : List Char) :
    (attempt (readSeparator ':' first readGroup) >>= fun
      | some group => do
        let (groups, v4) ← readGroups left false
        return (group :: groups, v4)
      | none => return ([], false) : Parser (List ℕ × Bool)) s =
      match readSeparator ':' first readGroup s with
      | some (group, s') => (readGroups left false s').map fun x => ((group :: x.1.1, x.1.2), x.2)
      | none => some (([], false), s) := by
  rw [bind_apply]
  cases h : readSeparator ':' first readGroup s with
  | none =>
    rw [attempt_of_none h]
    rfl
  | some x =>
    rw [attempt_of_some h, Option.bind_some]
    dsimp only
    rw [bind_apply]
    cases readGroups left false x.2 <;> rfl

/-- The groups and the IPv4 address that `read_groups` looks for. -/
theorem readGroups_succ (left : ℕ) (first : Bool) (s : List Char) :
    readGroups (left + 1) first s =
      match (if 0 < left then readSeparator ':' first readIpv4Addr s else none) with
      | some (v4, s') => some (([v4 / 65536, v4 % 65536], true), s')
      | none =>
        match readSeparator ':' first readGroup s with
        | some (group, s') => (readGroups left false s').map fun x => ((group :: x.1.1, x.1.2), x.2)
        | none => some (([], false), s) := by
  rw [readGroups]
  -- an IPv4 address takes two groups, so it is not looked for at the last one
  by_cases h_left : 0 < left
  · rw [if_pos h_left, if_pos h_left, bind_apply]
    cases h : readSeparator ':' first readIpv4Addr s with
    | none =>
      rw [attempt_of_none h]
      exact readGroups_group left first s
    | some x =>
      rw [attempt_of_some h]
      rfl
  · rw [if_neg h_left, if_neg h_left, bind_apply]
    exact readGroups_group left first s

/-- What groups may be followed by: it does not go on with a digit, a dot or a further group. -/
structure Stops (rest : List Char) : Prop where
  digit : ∀ c ∈ rest.head?, toDigit 16 c = none
  dot : rest.head? ≠ some '.'
  group : ∀ s, rest = ':' :: s → ∀ c ∈ s.head?, toDigit 16 c = none

/-- A decimal digit is a hexadecimal one. -/
theorem toDigit_ten_of_sixteen {c : Char} (h : toDigit 16 c = none) : toDigit 10 c = none := by
  unfold toDigit at h ⊢
  dsimp only at h ⊢
  rw [Option.filter_eq_none_iff] at h ⊢
  intro v h_v
  have h_not := h v h_v
  simp only [decide_eq_true_eq] at h_not ⊢
  omega

/-- Nothing is read before anything but a digit. -/
theorem readNumber_eq_none {radix max : ℕ} {maxDigits : Option ℕ} {allowZeroPrefix : Bool}
    {s : List Char} (h : ∀ c ∈ s.head?, toDigit radix c = none) :
    readNumber radix max maxDigits allowZeroPrefix s = none := by
  have h_take : (s.takeWhile fun c => (toDigit radix c).isSome) = [] := by
    cases s with
    | nil => rfl
    | cons c s => exact List.takeWhile_cons_of_neg (by simp [h c rfl])
  unfold readNumber
  dsimp only
  rw [h_take, if_pos rfl]

/-- An IPv4 address begins with a digit. -/
theorem readIpv4Addr_of_head {s : List Char} (h : ∀ c ∈ s.head?, toDigit 10 c = none) :
    readIpv4Addr s = none := by
  have h_octet : readOctet s = none := readNumber_eq_none h
  rw [readIpv4Addr_eq, readOctets_succ, readSeparator_true, h_octet]
  rfl

theorem not_dot_of_toDigit {c : Char} (h : (toDigit 16 c).isSome) : c ≠ '.' := by
  rintro rfl
  cases h

/-- A group that is no end of an IPv4 address is not the beginning of one either. -/
theorem readIpv4Addr_hex {n : ℕ} {rest : List Char}
    (h_digit : ∀ c ∈ rest.head?, toDigit 16 c = none) (h_dot : rest.head? ≠ some '.') :
    readIpv4Addr (hex n ++ rest) = none := by
  refine readIpv4Addr_eq_none ?_
  have h_hex : ∀ c ∈ hex n, (toDigit 16 c).isSome := isSome_toDigit (by decide) (by decide)
  -- what is dropped of the group are its decimal digits
  generalize hex n = digits at h_hex ⊢
  induction digits with
  | nil =>
    cases rest with
    | nil => simp
    | cons c rest =>
      have h_c : toDigit 10 c = none := toDigit_ten_of_sixteen (h_digit c rfl)
      rw [List.nil_append, List.dropWhile_cons_of_neg (by simp [h_c])]
      exact h_dot
  | cons c digits ih =>
    obtain ⟨h_c, h_hex⟩ := List.forall_mem_cons.mp h_hex
    rw [List.cons_append, List.dropWhile_cons]
    split
    · exact ih h_hex
    · exact fun h => not_dot_of_toDigit h_c (Option.some.inj h)

/-- No IPv4 address begins where a group ends. -/
theorem Stops.ipv4 {rest : List Char} (h : Stops rest) :
    readSeparator ':' false readIpv4Addr rest = none := by
  rw [readSeparator_false]
  cases rest with
  | nil => rfl
  | cons c s =>
    by_cases h_c : c = ':'
    · subst h_c
      rw [readGivenChar_cons, Option.bind_some]
      exact readIpv4Addr_of_head fun c h_c => toDigit_ten_of_sixteen (h.group s rfl c h_c)
    · rw [readGivenChar_of_ne (by simpa using h_c)]
      rfl

/-- No other group does. -/
theorem Stops.readGroup {rest : List Char} (h : Stops rest) :
    readSeparator ':' false readGroup rest = none := by
  rw [readSeparator_false]
  cases rest with
  | nil => rfl
  | cons c s =>
    by_cases h_c : c = ':'
    · subst h_c
      rw [readGivenChar_cons, Option.bind_some]
      exact readNumber_eq_none (h.group s rfl)
    · rw [readGivenChar_of_ne (by simpa using h_c)]
      rfl

/-- The groups end where neither an IPv4 address nor a group can be read. -/
theorem readGroups_nil {first : Bool} {s : List Char} (left : ℕ)
    (h_ipv4 : readSeparator ':' first readIpv4Addr s = none)
    (h_group : readSeparator ':' first readGroup s = none) :
    readGroups left first s = some (([], false), s) := by
  cases left with
  | zero => rfl
  | succ left =>
    rw [readGroups_succ, h_ipv4, h_group, ite_self]

/-- One more group. -/
theorem readGroups_cons {first : Bool} {left n : ℕ} {gs : List ℕ} {s s' rest : List Char}
    (h_ipv4 : readSeparator ':' first readIpv4Addr s = none)
    (h_group : readSeparator ':' first readGroup s = some (n, s'))
    (h : readGroups left false s' = some ((gs, false), rest)) :
    readGroups (left + 1) first s = some ((n :: gs, false), rest) := by
  rw [readGroups_succ, h_ipv4, h_group, ite_self]
  dsimp only
  rw [h]
  rfl

/-- The groups after the first one, each with its colon. -/
abbrev tailText (gs : List ℕ) : List Char := gs.flatMap fun g => ':' :: hex g

/-- Groups go on with a colon, or with what comes after them. -/
theorem head_tailText {gs : List ℕ} {rest : List Char} (h : Stops rest) :
    (∀ c ∈ (tailText gs ++ rest).head?, toDigit 16 c = none) ∧
      (tailText gs ++ rest).head? ≠ some '.' := by
  cases gs with
  | nil => exact ⟨h.digit, h.dot⟩
  | cons g gs =>
    constructor
    · rintro c ⟨⟩
      decide
    · simp

/-- Groups with a colon before each are read back. -/
theorem readGroups_tailText {gs : List ℕ} {left : ℕ} {rest : List Char}
    (h_gs : ∀ g ∈ gs, g < 65536) (h_left : gs.length ≤ left) (h : Stops rest) :
    readGroups left false (tailText gs ++ rest) = some ((gs, false), rest) := by
  induction gs generalizing left with
  | nil => exact readGroups_nil left h.ipv4 h.readGroup
  | cons g gs ih =>
    obtain ⟨left, rfl⟩ := Nat.exists_eq_add_of_le' (Nat.le_trans (Nat.succ_pos _) h_left)
    obtain ⟨h_g, h_gs⟩ := List.forall_mem_cons.mp h_gs
    obtain ⟨h_digit, h_dot⟩ : (∀ c ∈ (tailText gs ++ rest).head?, toDigit 16 c = none) ∧
      (tailText gs ++ rest).head? ≠ some '.' := head_tailText h
    have h_text : tailText (g :: gs) ++ rest = ':' :: (hex g ++ (tailText gs ++ rest)) := by
      simp [tailText]
    refine readGroups_cons ?_ ?_ (ih h_gs (Nat.le_of_succ_le_succ h_left))
    · rw [h_text, readSeparator_false, readGivenChar_cons, Option.bind_some]
      exact readIpv4Addr_hex h_digit h_dot
    · rw [h_text, readSeparator_false, readGivenChar_cons, Option.bind_some]
      exact readGroup_hex h_g h_digit

/-- **Groups are read back.** -/
theorem readGroups_fmtSubslice {gs : List ℕ} {left : ℕ} {rest : List Char}
    (h_gs : ∀ g ∈ gs, g < 65536) (h_left : gs.length ≤ left) (h : Stops rest) :
    readGroups left true (IpAddr.fmtSubslice gs ++ rest) = some ((gs, false), rest) := by
  cases gs with
  | nil =>
    refine readGroups_nil left ?_ ?_
    · exact readIpv4Addr_of_head fun c h_c => toDigit_ten_of_sixteen (h.digit c h_c)
    · exact readNumber_eq_none h.digit
  | cons g gs =>
    obtain ⟨left, rfl⟩ := Nat.exists_eq_add_of_le' (Nat.le_trans (Nat.succ_pos _) h_left)
    obtain ⟨h_g, h_gs⟩ := List.forall_mem_cons.mp h_gs
    obtain ⟨h_digit, h_dot⟩ : (∀ c ∈ (tailText gs ++ rest).head?, toDigit 16 c = none) ∧
      (tailText gs ++ rest).head? ≠ some '.' := head_tailText h
    have h_text : IpAddr.fmtSubslice (g :: gs) ++ rest = hex g ++ (tailText gs ++ rest) :=
      List.append_assoc _ _ _
    rw [h_text]
    refine readGroups_cons ?_ ?_ (readGroups_tailText h_gs (Nat.le_of_succ_le_succ h_left) h)
    · exact readIpv4Addr_hex h_digit h_dot
    · exact readGroup_hex h_g h_digit

/-! ### The three ways to write an IPv6 address -/

/-- The value of groups. -/
abbrev ofGroups (gs : List ℕ) : ℕ := gs.foldl (fun v group => v * 65536 + group) 0

/-- The parser of IPv6 addresses as steps: the groups at the head, and if there are not eight of
them two colons and the groups at the tail. -/
theorem readIpv6Addr_eq (s : List Char) :
    readIpv6Addr s = (readGroups 8 true s).bind fun x =>
      if x.1.1.length = 8 then some (ofGroups x.1.1, x.2)
      else if x.1.2 then none
      else (readGivenChar ':' x.2).bind fun y => (readGivenChar ':' y.2).bind fun z =>
        (readGroups (8 - (x.1.1.length + 1)) true z.2).map fun w =>
          (ofGroups (x.1.1 ++ List.replicate (8 - x.1.1.length - w.1.1.length) 0 ++ w.1.1),
            w.2) := by
  unfold readIpv6Addr
  rw [bind_apply]
  congr 1
  funext x
  obtain ⟨⟨head, headIpv4⟩, s'⟩ := x
  dsimp only
  -- all eight groups, or the groups on both sides of `::`
  by_cases h_len : head.length = 8
  · rw [if_pos h_len, if_pos h_len]
    rfl
  · rw [if_neg h_len, if_neg h_len]
    cases headIpv4 with
    | true => rfl
    | false =>
      simp only [bind_apply, Bool.false_eq_true, if_false]
      cases readGivenChar ':' s' with
      | none => rfl
      | some y =>
        simp only [Option.bind_some]
        cases readGivenChar ':' y.2 with
        | none => rfl
        | some z =>
          simp only [Option.bind_some]
          cases readGroups (8 - (head.length + 1)) true z.2 <;> rfl

theorem stops_of_head {c : Char} {s : List Char} (h : c = ']' ∨ c = '%') : Stops (c :: s) := by
  rcases h with rfl | rfl
  · exact ⟨by rintro c ⟨⟩; decide, by simp, by rintro s ⟨⟩⟩
  · exact ⟨by rintro c ⟨⟩; decide, by simp, by rintro s ⟨⟩⟩

theorem stops_colons (s : List Char) : Stops (':' :: ':' :: s) :=
  ⟨by rintro c ⟨⟩; decide, by simp, by rintro s ⟨⟩ c ⟨⟩; decide⟩

/-- All eight groups. -/
theorem readIpv6Addr_groups {gs : List ℕ} {rest : List Char} (h_gs : ∀ g ∈ gs, g < 65536)
    (h_len : gs.length = 8) (h : Stops rest) :
    readIpv6Addr (IpAddr.fmtSubslice gs ++ rest) = some (ofGroups gs, rest) := by
  rw [readIpv6Addr_eq, readGroups_fmtSubslice h_gs (Nat.le_of_eq h_len) h, Option.bind_some]
  exact if_pos h_len

/-- Groups on both sides of `::`. -/
theorem readIpv6Addr_colons {front back : List ℕ} {rest : List Char}
    (h_front : ∀ g ∈ front, g < 65536) (h_back : ∀ g ∈ back, g < 65536)
    (h_len : front.length + back.length < 8) (h : Stops rest) :
    readIpv6Addr (IpAddr.fmtSubslice front ++ ':' :: ':' :: (IpAddr.fmtSubslice back ++ rest)) =
      some (ofGroups (front ++ List.replicate (8 - front.length - back.length) 0 ++ back),
        rest) := by
  have h_eight : front.length ≤ 8 := by omega
  have h_not : front.length ≠ 8 := by omega
  have h_left : back.length ≤ 8 - (front.length + 1) := by omega
  rw [readIpv6Addr_eq, readGroups_fmtSubslice h_front h_eight (stops_colons _), Option.bind_some]
  dsimp only
  rw [if_neg h_not, if_neg Bool.false_ne_true, readGivenChar_cons, Option.bind_some,
    readGivenChar_cons, Option.bind_some, readGroups_fmtSubslice h_back h_left h]
  rfl

/-- An IPv4 address that is mapped into IPv6. -/
theorem readIpv6Addr_mapped {ip : ℕ} {rest : List Char} (h_ip : ip < 2 ^ 32) (h : Stops rest) :
    readIpv6Addr ("::ffff:".toList ++ IpAddr.ipv4Text ip ++ rest) =
      some (ofGroups ([0, 0, 0, 0, 0] ++ [0xFFFF, ip / 65536, ip % 65536]), rest) := by
  have h_text : "::ffff:".toList ++ IpAddr.ipv4Text ip ++ rest = IpAddr.fmtSubslice [] ++
      ':' :: ':' :: (hex 0xFFFF ++ ':' :: (IpAddr.ipv4Text ip ++ rest)) := by
    have h_hex : hex 0xFFFF = "ffff".toList := by decide
    rw [h_hex]
    rfl
  have h_colon : ∀ c ∈ (':' :: (IpAddr.ipv4Text ip ++ rest)).head?, toDigit 16 c = none := by
    rintro c ⟨⟩
    decide
  -- the IPv4 address is taken for the last two groups
  have h_ipv4 : readGroups 6 false (':' :: (IpAddr.ipv4Text ip ++ rest)) =
      some (([ip / 65536, ip % 65536], true), rest) := by
    rw [readGroups_succ, if_pos (by decide), readSeparator_false, readGivenChar_cons,
      Option.bind_some, readIpv4Addr_text h_ip fun c h_c => toDigit_ten_of_sixteen (h.digit c h_c)]
  have h_first : readIpv4Addr (hex 0xFFFF ++ ':' :: (IpAddr.ipv4Text ip ++ rest)) = none :=
    readIpv4Addr_hex h_colon (by simp)
  have h_group : readGroup (hex 0xFFFF ++ ':' :: (IpAddr.ipv4Text ip ++ rest)) =
      some (0xFFFF, ':' :: (IpAddr.ipv4Text ip ++ rest)) := readGroup_hex (by decide) h_colon
  have h_tail : readGroups 7 true (hex 0xFFFF ++ ':' :: (IpAddr.ipv4Text ip ++ rest)) =
      some (([0xFFFF, ip / 65536, ip % 65536], true), rest) := by
    rw [readGroups_succ, readSeparator_true, readSeparator_true, h_first, h_group, ite_self]
    dsimp only
    rw [h_ipv4]
    rfl
  rw [h_text, readIpv6Addr_eq, readGroups_fmtSubslice (by simp) (by simp) (stops_colons _),
    Option.bind_some]
  dsimp only
  rw [if_neg (by decide), if_neg Bool.false_ne_true, readGivenChar_cons, Option.bind_some,
    readGivenChar_cons, Option.bind_some]
  show (readGroups 7 true _).map _ = _
  rw [h_tail]
  rfl

end Parser

/-! ### Segments -/

namespace IpAddr

open V2ray.Parser

theorem digits_succ (n ip : ℕ) : digits (n + 1) ip = digits n (ip / 65536) ++ [ip % 65536] := by
  unfold digits
  rw [List.range_succ, List.map_append]
  congr 1
  · refine List.map_congr_left fun i h_i => ?_
    have h_i := List.mem_range.mp h_i
    rw [Nat.div_div_eq_div_mul, ← Nat.pow_succ']
    congr 3
    omega
  · simp

@[simp] theorem length_digits (n ip : ℕ) : (digits n ip).length = n := by
  simp [digits]

theorem ofGroups_digits (n ip : ℕ) : ofGroups (digits n ip) = ip % 65536 ^ n := by
  induction n generalizing ip with
  | zero => simp [digits, Nat.mod_one]
  | succ n ih =>
    have h_last : ofGroups (digits n (ip / 65536) ++ [ip % 65536]) =
        ofGroups (digits n (ip / 65536)) * 65536 + ip % 65536 := List.foldl_append
    rw [digits_succ, h_last, ih, Nat.pow_succ', Nat.mod_mul, Nat.mul_comm, Nat.add_comm]

theorem digits_lt (n ip : ℕ) : ∀ g ∈ digits n ip, g < 65536 := by
  intro g h_g
  obtain ⟨i, -, rfl⟩ := List.mem_map.mp h_g
  exact Nat.mod_lt _ (by decide)

theorem ofGroups_segments (ip : BitVec 128) : ofGroups (segments ip) = ip.toNat := by
  rw [segments, ofGroups_digits]
  exact Nat.mod_eq_of_lt ip.isLt

/-- All segments of the run are zero. -/
def ZeroRun (gs : List ℕ) (s : Span) : Prop :=
  s.start + s.len ≤ gs.length ∧ (gs.drop s.start).take s.len = List.replicate s.len 0

/-- A run that goes on. -/
theorem ZeroRun.succ {gs pre rest : List ℕ} {start len : ℕ} (h_gs : gs = pre ++ 0 :: rest)
    (h_end : start + len = pre.length) (h : (gs.drop start).take len = List.replicate len 0) :
    ZeroRun gs ⟨start, len + 1⟩ := by
  constructor
  · show start + (len + 1) ≤ gs.length
    rw [h_gs, List.length_append, List.length_cons]
    omega
  · show (gs.drop start).take (len + 1) = _
    have h_zero : (gs.drop start)[len]? = some 0 := by
      rw [List.getElem?_drop, h_end, h_gs, List.getElem?_append_right (Nat.le_refl _), Nat.sub_self]
      rfl
    rw [List.take_add_one, h, h_zero, List.replicate_succ']
    rfl

/-- **The run that is found** is one of zeros. -/
theorem zeroRun_zeroesLoop {gs pre rest : List ℕ} {current longest : Span}
    (h_gs : gs = pre ++ rest) (h_longest : ZeroRun gs longest)
    (h_current : current.len = 0 ∨ current.start + current.len = pre.length ∧ ZeroRun gs current) :
    ZeroRun gs (zeroesLoop pre.length current longest rest) := by
  induction rest generalizing pre current longest with
  | nil => exact h_longest
  | cons segment rest ih =>
    have h_next : gs = (pre ++ [segment]) ++ rest := by
      rw [h_gs, List.append_assoc]
      rfl
    have h_len : (pre ++ [segment]).length = pre.length + 1 := List.length_append
    rw [zeroesLoop]
    split
    · next h_zero =>
      subst h_zero
      dsimp only
      -- the run goes on, or begins here
      have h_new : ∃ start, (if current.len = 0 then pre.length else current.start) = start ∧
          start + (current.len + 1) = pre.length + 1 ∧ ZeroRun gs ⟨start, current.len + 1⟩ := by
        by_cases h_first : current.len = 0
        · refine ⟨_, if_pos h_first, by omega, .succ h_gs (by omega) ?_⟩
          rw [h_first]
          rfl
        · obtain ⟨h_end, h_run⟩ := h_current.resolve_left h_first
          exact ⟨_, if_neg h_first, by omega, .succ h_gs h_end h_run.2⟩
      obtain ⟨start, h_start, h_end, h_run⟩ := h_new
      rw [h_start, ← h_len]
      refine ih h_next ?_ (.inr ⟨by rw [h_len]; exact h_end, h_run⟩)
      split
      · exact h_run
      · exact h_longest
    · rw [← h_len]
      exact ih h_next h_longest (.inl rfl)

/-- The segments around the longest run. -/
theorem zeroes_eq (gs : List ℕ) : (zeroes gs).start + (zeroes gs).len ≤ gs.length ∧
    gs = gs.take (zeroes gs).start ++ List.replicate (zeroes gs).len 0 ++
      gs.drop ((zeroes gs).start + (zeroes gs).len) := by
  have h_run : ZeroRun gs (zeroes gs) :=
    zeroRun_zeroesLoop (List.nil_append gs).symm ⟨Nat.zero_le _, rfl⟩ (.inl rfl)
  refine ⟨h_run.1, ?_⟩
  calc gs = gs.take (zeroes gs).start ++ gs.drop (zeroes gs).start :=
      (List.take_append_drop _ _).symm
    _ = gs.take (zeroes gs).start ++ ((gs.drop (zeroes gs).start).take (zeroes gs).len ++
          (gs.drop (zeroes gs).start).drop (zeroes gs).len) :=
      congrArg (gs.take (zeroes gs).start ++ ·) (List.take_append_drop _ _).symm
    _ = _ := by rw [h_run.2, List.drop_drop, List.append_assoc]

/-- What is mapped is an IPv4 address behind 65535. -/
theorem segments_mapped {ip : BitVec 128} (h : (segments ip).take 6 = [0, 0, 0, 0, 0, 0xFFFF]) :
    segments ip = [0, 0, 0, 0, 0] ++
      [0xFFFF, ip.toNat % 2 ^ 32 / 65536, ip.toNat % 2 ^ 32 % 65536] := by
  have h_drop : (segments ip).drop 6 =
      [ip.toNat % 2 ^ 32 / 65536, ip.toNat % 2 ^ 32 % 65536] := by
    have h_two : (segments ip).drop 6 = [ip.toNat / 65536 % 65536, ip.toNat % 65536] := by
      simp [segments, digits, List.range_succ]
    rw [h_two]
    congr 1
    · omega
    · congr 1
      omega
  rw [← List.take_append_drop 6 (segments ip), h, h_drop]
  rfl

/-- **An IPv6 address is read back.** -/
theorem readIpv6Addr_text (ip : BitVec 128) {rest : List Char} (h : Stops rest) :
    readIpv6Addr (ipv6Text ip ++ rest) = some (ip.toNat, rest) := by
  have h_lt : ∀ g ∈ segments ip, g < 65536 := digits_lt 8 ip.toNat
  have h_eight : (segments ip).length = 8 := length_digits 8 ip.toNat
  unfold ipv6Text
  dsimp only
  split
  · -- an IPv4 address in the last two groups, a run of zeros, or all groups
    next h_mapped =>
    rw [readIpv6Addr_mapped (Nat.mod_lt _ (by decide)) h, ← segments_mapped h_mapped,
      ofGroups_segments]
  split
  · next h_long =>
    obtain ⟨h_le, h_segments⟩ := zeroes_eq (segments ip)
    generalize zeroes (segments ip) = zeroes at h_long h_le h_segments
    have h_front : ((segments ip).take zeroes.start).length = zeroes.start := by
      rw [List.length_take]
      omega
    have h_back : ((segments ip).drop (zeroes.start + zeroes.len)).length =
        8 - (zeroes.start + zeroes.len) := by
      rw [List.length_drop, h_eight]
    have h_read := readIpv6Addr_colons
      (fun g (h_g : g ∈ (segments ip).take zeroes.start) => h_lt g (List.mem_of_mem_take h_g))
      (fun g (h_g : g ∈ (segments ip).drop (zeroes.start + zeroes.len)) =>
        h_lt g (List.mem_of_mem_drop h_g))
      (by rw [h_front, h_back]; omega) h
    rw [h_front, h_back, show 8 - zeroes.start - (8 - (zeroes.start + zeroes.len)) = zeroes.len by
      omega, ← h_segments, ofGroups_segments] at h_read
    rw [List.append_assoc]
    exact h_read
  · rw [readIpv6Addr_groups h_lt h_eight h, ofGroups_segments]

end IpAddr

/-! ### Socket addresses -/

namespace Parser

/-- A port that was written is read back. -/
theorem readPort_text (port : UInt16) :
    readPort (':' :: decimal port.toNat) = some (port.toNat, []) := by
  have h_number : readNumber 10 0xFFFF none true (decimal port.toNat ++ []) =
      some (port.toNat, []) :=
    readNumber_toDigits (by decide) (by decide) (Nat.le_of_lt_succ port.toNat_lt)
      (by rintro k ⟨⟩) (by rintro c ⟨⟩)
  rw [List.append_nil] at h_number
  unfold readPort
  rw [bind_apply, readGivenChar_cons]
  exact h_number

/-- The scope, if it is not zero, and what comes after it. -/
theorem attempt_readScopeId (scopeId : UInt32) (rest : List Char) :
    (attempt readScopeId ((if scopeId = 0 then [] else '%' :: decimal scopeId.toNat) ++
      ']' :: rest)).map (fun x => (x.1.getD 0, x.2)) = some (scopeId.toNat, ']' :: rest) := by
  by_cases h : scopeId = 0
  · subst h
    rfl
  · have h_read : readScopeId ('%' :: (decimal scopeId.toNat ++ ']' :: rest)) =
        some (scopeId.toNat, ']' :: rest) := by
      unfold readScopeId
      rw [bind_apply, readGivenChar_cons]
      exact readNumber_toDigits (by decide) (by decide) (Nat.le_of_lt_succ scopeId.toNat_lt)
        (by rintro k ⟨⟩) (by rintro c ⟨⟩; decide)
    rw [if_neg h, List.cons_append, attempt_of_some h_read]
    rfl

end Parser

namespace SocketAddr

open V2ray.Parser

/-- A socket address with an IPv4 address that was written is read back, with nothing left. -/
theorem readSocketAddrV4_text (ip : BitVec 32) (port : UInt16) :
    readSocketAddrV4 (SocketAddr.v4 ip port).text = some (.v4 ip port, []) := by
  show readSocketAddrV4 (IpAddr.ipv4Text ip.toNat ++ ':' :: decimal port.toNat) = _
  unfold readSocketAddrV4
  rw [bind_apply, readIpv4Addr_text ip.isLt (by rintro c ⟨⟩; decide), Option.bind_some, bind_apply,
    readPort_text, Option.bind_some]
  show some (SocketAddr.v4 (BitVec.ofNat 32 ip.toNat) (UInt16.ofNat port.toNat), []) = _
  rw [BitVec.ofNat_toNat, UInt16.ofNat_toNat]
  rfl

/-- A socket address of IPv6 is read back from its text, without its flow label. -/
theorem readSocketAddrV6_text (ip : BitVec 128) (port : UInt16) (flowinfo scopeId : UInt32) :
    readSocketAddrV6 (SocketAddr.v6 ip port flowinfo scopeId).text =
      some (.v6 ip port 0 scopeId, []) := by
  have h_scope := attempt_readScopeId scopeId (':' :: decimal port.toNat)
  have h_stops : Stops ((if scopeId = 0 then [] else '%' :: decimal scopeId.toNat) ++
      ']' :: ':' :: decimal port.toNat) := by
    split
    · exact stops_of_head (.inl rfl)
    · exact stops_of_head (.inr rfl)
  show readSocketAddrV6 ('[' :: (IpAddr.ipv6Text ip ++ _)) = _
  unfold readSocketAddrV6
  rw [bind_apply, readGivenChar_cons, Option.bind_some, bind_apply,
    IpAddr.readIpv6Addr_text ip h_stops, Option.bind_some, bind_apply]
  dsimp only
  -- the scope is written only if it is not 0, and is 0 if it is not there
  generalize attempt readScopeId _ = r at h_scope ⊢
  obtain ⟨x, rfl, h_x⟩ := Option.map_eq_some_iff.mp h_scope
  obtain ⟨h_id, h_rest⟩ := Prod.mk.inj h_x
  rw [Option.bind_some, h_id, h_rest, bind_apply, readGivenChar_cons, Option.bind_some, bind_apply,
    readPort_text, Option.bind_some]
  show some (SocketAddr.v6 (BitVec.ofNat 128 ip.toNat) (UInt16.ofNat port.toNat) 0
    (UInt32.ofNat scopeId.toNat), []) = _
  rw [BitVec.ofNat_toNat, UInt16.ofNat_toNat, UInt32.ofNat_toNat]
  rfl

/-- `from_str` takes the first of the two readers that reads something, and refuses what it leaves.
-/
theorem fromStr_eq (s : String) : SocketAddr.fromStr s =
    ((readSocketAddrV4 s.toList).or (readSocketAddrV6 s.toList)).bind fun x =>
      if x.2 = [] then some x.1 else none := by
  unfold SocketAddr.fromStr
  show ((readSocketAddrV4 <|> readSocketAddrV6) s.toList).bind _ = _
  have h_or : (readSocketAddrV4 <|> readSocketAddrV6 : Parser SocketAddr) s.toList =
      (readSocketAddrV4 s.toList).or (readSocketAddrV6 s.toList) := by
    show (readSocketAddrV4 s.toList <|> readSocketAddrV6 s.toList) = _
    cases readSocketAddrV4 s.toList <;> rfl
  rw [h_or]
  rfl

/-- **A socket address is read back** from its text, which does not have the flow info. -/
theorem fromStr_text {addr : SocketAddr}
    (h : ∀ ip port flowinfo scopeId, addr = .v6 ip port flowinfo scopeId → flowinfo = 0) :
    SocketAddr.fromStr (String.ofList addr.text) = some addr := by
  rw [fromStr_eq, String.toList_ofList]
  cases addr with
  | v4 ip port =>
    rw [readSocketAddrV4_text]
    rfl
  | v6 ip port flowinfo scopeId =>
    have h_v4 : readSocketAddrV4 (SocketAddr.v6 ip port flowinfo scopeId).text = none := by
      unfold readSocketAddrV4
      rw [bind_apply, readIpv4Addr_of_head (by rintro c ⟨⟩; decide)]
      rfl
    rw [h_v4, readSocketAddrV6_text, h ip port flowinfo scopeId rfl]
    rfl

end SocketAddr

end V2ray
