import Mathlib.Data.BitVec
import Mathlib.Tactic.Common
import V2rayRust.Config.IpTrie
import V2rayRust.Lib.LongestPrefix

/-!
# Nodes as paths

The invariant of the trie vectors, stated on paths: `walk` follows child pointers from the
root along a bit string, `Valid` says that the three vectors agree in length, that every
pointer is `nullptr` or a node, and that distinct paths reach distinct nodes. `put` is then
three operations on a valid trie: follow the path as far as it exists (`follow`), add a
node for each missing bit (`grow`), and set one value; `put_eq` is that equation and
`stored_putAt` what it does to the stored values. `get_eq` reads `get` as a walk that keeps
the last stored value it meets.
-/

namespace V2ray

/-- The bits of a word, most significant first. -/
def msbBits {w : ℕ} (a : BitVec w) : List Bool := (List.range w).map a.getMsbD

@[simp] theorem length_msbBits {w : ℕ} (a : BitVec w) : (msbBits a).length = w := by
  simp [msbBits]

theorem getElem?_msbBits {w : ℕ} (a : BitVec w) {i : ℕ} (h : i < w) :
    (msbBits a)[i]? = some (a.getMsbD i) := by
  simp [msbBits, h]

namespace PatriciaTrie

variable {w : ℕ}

/-! ### The walking bit and the mask -/

/-- `1 << k` after `i` rounds of `bit >>= 1`. -/
def probe (w k i : ℕ) : BitVec w := (1#w <<< k) >>> i

theorem probe_zero (w k : ℕ) : probe w k 0 = 1#w <<< k := BitVec.ushiftRight_zero _

theorem probe_succ (w k i : ℕ) : probe w k i >>> 1 = probe w k (i + 1) := by
  unfold probe
  rw [BitVec.shiftRight_add]

theorem getLsbD_probe {k : ℕ} (hk : k < w) (i j : ℕ) :
    (probe w k i).getLsbD j = decide (i + j = k) := by
  unfold probe
  rw [← BitVec.twoPow_eq, BitVec.getLsbD_ushiftRight, BitVec.getLsbD_twoPow, decide_eq_true hk,
    Bool.true_and]
  exact decide_eq_decide.mpr eq_comm

/-- Testing `bit` of `key` reads one bit of `key`. -/
theorem and_probe_ne_zero (key : BitVec w) {k : ℕ} (hk : k < w) (i : ℕ) :
    key &&& probe w k i ≠ 0 ↔ i ≤ k ∧ key.getLsbD (k - i) = true := by
  constructor
  · intro h
    by_contra hno
    apply h
    -- `probe` has one bit, so the conjunction is zero if that bit of the key is not set
    refine BitVec.eq_of_getLsbD_eq fun j hj => ?_
    rw [BitVec.getLsbD_and, getLsbD_probe hk]
    by_cases hij : i + j = k
    · have hkj : k - i = j := by omega
      rw [hkj] at hno
      have h_false : key.getLsbD j = false := by
        cases hb : key.getLsbD j
        · rfl
        · exact absurd ⟨by omega, hb⟩ hno
      rw [h_false]
      simp
    · simp [hij]
  · rintro ⟨hik, hbit⟩ h
    have h_zero := congrArg (fun x => x.getLsbD (k - i)) h
    rw [BitVec.getLsbD_and, getLsbD_probe hk, hbit] at h_zero
    have hki : i + (k - i) = k := by omega
    simp [hki] at h_zero

/-- The mask `((1 << s) - 1) ^ MAX` keeps the bits from `s` on. -/
theorem getLsbD_mask (s : ℕ) {j : ℕ} (hs : s < w) (hj : j < w) :
    (((1#w <<< s) - 1#w) ^^^ nullptr w).getLsbD j = decide (s ≤ j) := by
  have h_pos : 1 ≤ 2 ^ s := Nat.one_le_two_pow
  have h_nat : ((1#w <<< s) - 1#w).toNat = 2 ^ s - 1 := by
    rw [← BitVec.twoPow_eq]
    have h_lt : 2 ^ s < 2 ^ w := Nat.pow_lt_pow_right (by decide) hs
    have h_one : (1#w).toNat = 1 := by
      rw [BitVec.toNat_ofNat]
      exact Nat.mod_eq_of_lt (by omega)
    rw [BitVec.toNat_sub_of_le, BitVec.toNat_twoPow_of_lt hs, h_one]
    rw [BitVec.le_def, BitVec.toNat_twoPow_of_lt hs, h_one]
    exact h_pos
  rw [BitVec.getLsbD_xor, nullptr, BitVec.getLsbD_allOnes, decide_eq_true hj, Bool.xor_true,
    ← BitVec.testBit_toNat, h_nat, Nat.testBit_two_pow_sub_one]
  by_cases hsj : s ≤ j
  · simp [hsj]
  · simp [hsj, Nat.lt_of_not_le hsj]

/-- The loops of `put` run for the first `w - s` bits. -/
theorem probe_and_mask_ne_zero {s : ℕ} (hs : s < w) (i : ℕ) :
    probe w (w - 1) i &&& (((1#w <<< s) - 1#w) ^^^ nullptr w) ≠ 0 ↔ i < w - s := by
  rw [BitVec.and_comm, and_probe_ne_zero _ (by omega)]
  constructor
  · rintro ⟨hi, hbit⟩
    rw [getLsbD_mask s hs (by omega), decide_eq_true_iff] at hbit
    omega
  · intro hi
    refine ⟨by omega, ?_⟩
    rw [getLsbD_mask s hs (by omega), decide_eq_true_iff]
    omega

/-! ### Paths -/

/-- The node numbers a word and a vector can hold; `nullptr` is not one of them. -/
def capacity (w : ℕ) : ℕ := min (2 ^ w - 1) (2 ^ 64)

/-- The child of `n` on side `b`. -/
def child (t : PatriciaTrie w) (n : ℕ) (b : Bool) : Option ℕ :=
  (if b then t.right else t.left)[n]?.bind fun c =>
    if c = nullptr w then none else some c.toNat

/-- The node that a path from the root reaches. -/
def walk (t : PatriciaTrie w) (q : List Bool) : Option ℕ :=
  q.foldlM (fun n b => t.child n b) 0

/-- The value stored at a path. -/
def stored (t : PatriciaTrie w) (q : List Bool) : Option (BitVec 32) :=
  ((t.walk q).bind fun n => t.value[n]?).filter fun v => v ≠ nullptr 32

/-- The invariant of the trie. -/
structure Valid (t : PatriciaTrie w) : Prop where
  left_length : t.left.length = t.size
  right_length : t.right.length = t.size
  value_length : t.value.length = t.size
  size_pos : 0 < t.size
  size_le : t.size ≤ capacity w
  /-- a pointer is `nullptr` or a node -/
  child_lt : ∀ {n m : ℕ} {b : Bool}, t.child n b = some m → m < t.size
  /-- no node is reached on two paths -/
  walk_inj : ∀ {q q' : List Bool} {n : ℕ}, t.walk q = some n → t.walk q' = some n → q = q'
  /-- no path is longer than a word -/
  depth : ∀ {q : List Bool} {n : ℕ}, t.walk q = some n → q.length ≤ w

@[simp] theorem walk_nil (t : PatriciaTrie w) : t.walk [] = some 0 := rfl

theorem walk_concat (t : PatriciaTrie w) (q : List Bool) (b : Bool) :
    t.walk (q ++ [b]) = (t.walk q).bind fun n => t.child n b := by
  unfold walk
  rw [List.foldlM_append]
  cases q.foldlM (fun n b => t.child n b) 0 with
  | none => rfl
  | some n => simp

theorem child_new (n : ℕ) (b : Bool) : (new : PatriciaTrie w).child n b = none := by
  cases b <;> cases n <;> simp [child, new]

/-- A new trie has only its root. -/
theorem walk_new {q : List Bool} {n : ℕ} (h : (new : PatriciaTrie w).walk q = some n) :
    q = [] ∧ n = 0 := by
  cases q using List.reverseRecOn with
  | nil => exact ⟨rfl, (Option.some.inj h).symm⟩
  | append_singleton q b _ =>
    rw [walk_concat] at h
    obtain ⟨m, _, hm⟩ := Option.bind_eq_some_iff.mp h
    rw [child_new] at hm
    cases hm

/-- A new trie is valid. -/
theorem valid_new (hw : 0 < w) : (new : PatriciaTrie w).Valid where
  left_length := rfl
  right_length := rfl
  value_length := rfl
  size_pos := Nat.one_pos
  size_le := by
    have h_two : 2 ≤ 2 ^ w := Nat.le_self_pow (by omega) 2
    unfold capacity
    rw [le_min_iff]
    exact ⟨Nat.le_sub_of_add_le h_two, Nat.one_le_two_pow⟩
  child_lt h := by
    rw [child_new] at h
    cases h
  walk_inj h h' := (walk_new h).1.trans (walk_new h').1.symm
  depth h := by
    rw [(walk_new h).1]
    exact Nat.zero_le _

theorem stored_new (q : List Bool) : (new : PatriciaTrie w).stored q = none := by
  unfold stored
  cases h : (new : PatriciaTrie w).walk q with
  | none => rfl
  | some n =>
    rw [(walk_new h).2]
    rfl

namespace Valid

variable {t : PatriciaTrie w}

/-- A walk ends at a node of the arrays. -/
theorem walk_lt (ht : t.Valid) {q : List Bool} {n : ℕ} (h : t.walk q = some n) :
    n < t.size := by
  cases q using List.reverseRecOn with
  | nil => exact (Option.some.inj h) ▸ ht.size_pos
  | append_singleton q b _ =>
    rw [walk_concat] at h
    obtain ⟨m, _, hm⟩ := Option.bind_eq_some_iff.mp h
    exact ht.child_lt hm

/-- A node at full depth has no child. -/
theorem child_of_full (ht : t.Valid) {q : List Bool} {n : ℕ} (h : t.walk q = some n)
    (hq : q.length = w) (b : Bool) : t.child n b = none := by
  cases hc : t.child n b with
  | none => rfl
  | some m =>
    have h_walk : t.walk (q ++ [b]) = some m := by rw [walk_concat, h]; exact hc
    have h_len := ht.depth h_walk
    rw [List.length_append, List.length_singleton] at h_len
    omega

theorem lt_two_pow (ht : t.Valid) {n : ℕ} (h : n < t.size) : n < 2 ^ w - 1 :=
  lt_of_lt_of_le h (ht.size_le.trans (min_le_left _ _))

theorem asUsize_ofNat (ht : t.Valid) {n : ℕ} (h : n < t.size) :
    asUsize (BitVec.ofNat w n) = n := by
  have h_w : n < 2 ^ w := lt_of_lt_of_le (ht.lt_two_pow h) (Nat.sub_le _ _)
  have h_64 : n < 2 ^ 64 := lt_of_lt_of_le h (ht.size_le.trans (min_le_right _ _))
  unfold asUsize
  rw [BitVec.toNat_ofNat, Nat.mod_eq_of_lt h_w, Nat.mod_eq_of_lt h_64]

end Valid

/-! ### Following a path -/

/-- A child as the word that stands for it. -/
def ptr (w : ℕ) (o : Option ℕ) : BitVec w := (o.map (BitVec.ofNat w)).getD (nullptr w)

@[simp] theorem ptr_none (w : ℕ) : ptr w none = nullptr w := rfl

@[simp] theorem ptr_some (w n : ℕ) : ptr w (some n) = BitVec.ofNat w n := rfl

/-- No node has the number that stands for no node. -/
theorem Valid.ptr_ne_nullptr {t : PatriciaTrie w} (ht : t.Valid) {n : ℕ} (h : n < t.size) :
    BitVec.ofNat w n ≠ nullptr w := by
  have h_lt := ht.lt_two_pow h
  intro heq
  have h_nat := congrArg BitVec.toNat heq
  rw [nullptr, BitVec.toNat_ofNat, BitVec.toNat_allOnes,
    Nat.mod_eq_of_lt (lt_of_lt_of_le h_lt (Nat.sub_le _ _))] at h_nat
  exact absurd h_nat (Nat.ne_of_lt h_lt)

/-- Reading a pointer vector of a valid trie at a node. -/
theorem Valid.next_eq {t : PatriciaTrie w} (ht : t.Valid) (key bit : BitVec w) {n : ℕ}
    (hn : n < t.size) :
    t.next key bit (BitVec.ofNat w n) = .ok (ptr w (t.child n (decide (key &&& bit ≠ 0)))) := by
  -- both vectors are read alike
  have h_index : ∀ xs : List (BitVec w), xs.length = t.size →
      index xs n = .ok (ptr w (xs[n]?.bind fun c =>
        if c = nullptr w then none else some c.toNat)) := by
    intro xs hxs
    have h_get : xs[n]? = some xs[n] := List.getElem?_eq_getElem (hxs ▸ hn)
    rw [index_of_getElem? h_get, h_get, Option.bind_some]
    by_cases hc : xs[n] = nullptr w
    · rw [if_pos hc, hc]
      rfl
    · rw [if_neg hc]
      simp [ptr]
  unfold next child
  rw [ht.asUsize_ofNat hn]
  by_cases hb : key &&& bit ≠ 0
  · rw [if_pos hb, decide_eq_true hb, if_pos rfl]
    exact h_index _ ht.right_length
  · rw [if_neg hb, decide_eq_false hb, if_neg Bool.false_ne_true]
    exact h_index _ ht.left_length

/-- Follow `bs` from `n` as far as nodes exist: the last node and the bits left over. -/
def follow (t : PatriciaTrie w) : ℕ → List Bool → ℕ × List Bool
  | n, [] => (n, [])
  | n, b :: bs =>
    match t.child n b with
    | some m => t.follow m bs
    | none => (n, b :: bs)

theorem follow_of_child {t : PatriciaTrie w} {n m : ℕ} {b : Bool} (h : t.child n b = some m)
    (bs : List Bool) : t.follow n (b :: bs) = t.follow m bs := by
  rw [follow, h]

theorem follow_of_no_child {t : PatriciaTrie w} {n : ℕ} {b : Bool} (h : t.child n b = none)
    (bs : List Bool) : t.follow n (b :: bs) = (n, b :: bs) := by
  rw [follow, h]

/-- `follow` goes along the bits as far as there are nodes. -/
theorem follow_spec (t : PatriciaTrie w) {p : List Bool} {n : ℕ} (bs : List Bool)
    (h : t.walk p = some n) :
    ∃ pre, bs = pre ++ (t.follow n bs).2 ∧ t.walk (p ++ pre) = some (t.follow n bs).1 ∧
      ∀ b ∈ (t.follow n bs).2.head?, t.child (t.follow n bs).1 b = none := by
  -- on the path; the walk goes on as long as there is a child
  induction bs generalizing p n with
  | nil =>
    refine ⟨[], rfl, by rw [List.append_nil]; exact h, fun b hb => ?_⟩
    cases hb
  | cons b bs ih =>
    cases hc : t.child n b with
    | none =>
      rw [follow_of_no_child hc]
      refine ⟨[], rfl, by rw [List.append_nil]; exact h, fun b' hb => ?_⟩
      rw [List.head?_cons, Option.mem_some_iff] at hb
      rw [← hb]
      exact hc
    | some m =>
      obtain ⟨pre, h_eq, h_walk, h_stop⟩ := ih (p := p ++ [b]) (n := m) (by
        rw [walk_concat, h]
        exact hc)
      rw [follow_of_child hc]
      refine ⟨b :: pre, by rw [List.cons_append, ← h_eq], ?_, h_stop⟩
      rw [List.append_cons]
      exact h_walk

/-- The bits of `key` that `put` reads: the first `n`. -/
def pathOf (key : BitVec w) (n : ℕ) : List Bool := (msbBits key).take n

theorem length_pathOf (key : BitVec w) {n : ℕ} (hn : n ≤ w) : (pathOf key n).length = n := by
  simp [pathOf, hn]

/-- Bit `i` of the path is the test that the loops of `put` make in round `i`. -/
theorem head_drop_pathOf (key : BitVec w) {n i : ℕ} (hn : n ≤ w) {b : Bool} {bs : List Bool}
    (h : (pathOf key n).drop i = b :: bs) :
    i < n ∧ b = decide (key &&& probe w (w - 1) i ≠ 0) ∧ (pathOf key n).drop (i + 1) = bs := by
  -- what is left of the path after `i` bits begins with bit `i`
  have h_lt : i < (pathOf key n).length := by
    by_contra hge
    rw [List.drop_eq_nil_of_le (Nat.le_of_not_lt hge)] at h
    cases h
  rw [length_pathOf key hn] at h_lt
  have h_head : (pathOf key n)[i]? = some b := by
    have := congrArg List.head? h
    rwa [List.head?_drop] at this
  have h_tail : (pathOf key n).drop (i + 1) = bs := by
    have := congrArg List.tail h
    rwa [List.tail_drop] at this
  refine ⟨h_lt, ?_, h_tail⟩
  rw [pathOf, List.getElem?_take_of_lt h_lt, getElem?_msbBits key (by omega)] at h_head
  rw [← Option.some.inj h_head, Bool.eq_iff_iff, decide_eq_true_iff,
    and_probe_ne_zero key (by omega), BitVec.getMsbD_eq_getLsbD, Bool.and_eq_true,
    decide_eq_true_iff]
  constructor
  · rintro ⟨_, hbit⟩
    exact ⟨by omega, hbit⟩
  · rintro ⟨_, hbit⟩
    exact ⟨by omega, hbit⟩

section Put

variable {key mask : BitVec w} {len : ℕ}

theorem descend_of_masked {t : PatriciaTrie w} {bit : BitVec w} (h : ¬ bit &&& mask ≠ 0)
    (fuel : ℕ) (node nxt : BitVec w) :
    t.descend key mask fuel bit node nxt = .ok (bit, node, nxt) := by
  cases fuel with
  | zero => rfl
  | succ fuel => exact if_neg h

theorem descend_succ {t : PatriciaTrie w} {bit : BitVec w} (h : bit &&& mask ≠ 0)
    (fuel : ℕ) (node nxt : BitVec w) :
    t.descend key mask (fuel + 1) bit node nxt = (t.next key bit node >>= fun nxt =>
      if nxt = nullptr w then .ok (bit, node, nxt)
      else t.descend key mask fuel (bit >>> 1) nxt nxt) :=
  if_pos h

/-- **The first loop of `put` follows the path.** -/
theorem Valid.descend_eq {t : PatriciaTrie w} (ht : t.Valid) (key : BitVec w) (hlen : len ≤ w)
    (hmask : ∀ i, probe w (w - 1) i &&& mask ≠ 0 ↔ i < len) (bs : List Bool) :
    ∀ {f i n : ℕ}, (pathOf key len).drop i = bs → i ≤ len → len ≤ i + f → n < t.size →
      t.descend key mask f (probe w (w - 1) i) (BitVec.ofNat w n) (BitVec.ofNat w n) =
        .ok (probe w (w - 1) (len - (t.follow n bs).2.length),
          BitVec.ofNat w (t.follow n bs).1,
          if (t.follow n bs).2 = [] then BitVec.ofNat w (t.follow n bs).1 else nullptr w) := by
  -- on the part of the path that is still ahead
  induction bs with
  | nil =>
    intro fuel i n h_drop hi _ _
    have h_ge := List.drop_eq_nil_iff.mp h_drop
    rw [length_pathOf key hlen] at h_ge
    have h_i : i = len := by omega
    subst h_i
    exact descend_of_masked (fun h => Nat.lt_irrefl i ((hmask i).mp h)) fuel _ _
  | cons b bs ih =>
    intro fuel i n h_drop hi h_fuel hn
    obtain ⟨h_lt, h_bit, h_tail⟩ := head_drop_pathOf key hlen h_drop
    obtain ⟨fuel, rfl⟩ : ∃ f, fuel = f + 1 := ⟨fuel - 1, by omega⟩
    rw [descend_succ ((hmask i).mpr h_lt), ht.next_eq key _ hn, ok_bind, ← h_bit]
    -- the loop stops where the child is missing, or goes down to it
    cases hc : t.child n b with
    | none =>
      have h_len : (b :: bs).length = len - i := by
        rw [← h_drop, List.length_drop, length_pathOf key hlen]
      have h_i : len - (len - i) = i := by omega
      rw [follow_of_no_child hc, ptr_none, if_pos rfl, h_len, h_i, if_neg (List.cons_ne_nil b bs)]
    | some m =>
      have hm := ht.child_lt hc
      rw [follow_of_child hc, ptr_some, if_neg (ht.ptr_ne_nullptr hm), probe_succ]
      exact ih h_tail h_lt (by omega) hm

/-- `pushChild` on node numbers. -/
def addChild (t : PatriciaTrie w) (n : ℕ) (b : Bool) : PatriciaTrie w where
  left := if b then t.left ++ [nullptr w] else (t.left ++ [nullptr w]).set n (BitVec.ofNat w t.size)
  right :=
    if b then (t.right ++ [nullptr w]).set n (BitVec.ofNat w t.size) else t.right ++ [nullptr w]
  value := t.value ++ [nullptr 32]
  size := t.size + 1

/-- Pushing a child adds it, at the number that comes next. -/
theorem Valid.pushChild_eq {t : PatriciaTrie w} (ht : t.Valid) (bit : BitVec w) {n : ℕ}
    (hn : n < t.size) :
    t.pushChild key bit (BitVec.ofNat w n) = .ok (t.addChild n (decide (key &&& bit ≠ 0))) := by
  have h_left : n < (t.left ++ [nullptr w]).length := by
    rw [List.length_append, ht.left_length]
    exact Nat.lt_succ_of_lt hn
  have h_right : n < (t.right ++ [nullptr w]).length := by
    rw [List.length_append, ht.right_length]
    exact Nat.lt_succ_of_lt hn
  unfold pushChild addChild
  rw [ht.asUsize_ofNat hn]
  by_cases hb : key &&& bit ≠ 0
  · rw [decide_eq_true hb, if_pos hb, assign_of_lt h_right]
    rfl
  · rw [decide_eq_false hb, if_neg hb, assign_of_lt h_left]
    rfl

/-- A node for each bit, each the child of the one before; the trie and the last node. -/
def grow (t : PatriciaTrie w) : ℕ → List Bool → PatriciaTrie w × ℕ
  | n, [] => (t, n)
  | n, b :: bs => (t.addChild n b).grow t.size bs

end Put

/-! ### What a new node changes -/

section AddChild

variable {t : PatriciaTrie w} {p : List Bool} {n : ℕ} {b : Bool}

/-- Appending `nullptr` and setting slot `n` changes slot `n` only. -/
theorem getElem?_set_concat_nullptr (xs : List (BitVec w)) {x : BitVec w} (hn : n < xs.length)
    (m : ℕ) :
    ((xs ++ [nullptr w]).set n x)[m]? = if m = n then some x else (xs ++ [nullptr w])[m]? := by
  rw [List.getElem?_set]
  by_cases hm : m = n
  · subst hm
    rw [if_pos rfl, if_pos rfl, if_pos (by rw [List.length_append]; exact Nat.lt_add_right _ hn)]
  · rw [if_neg (Ne.symm hm), if_neg hm]

/-- The slot of a new node holds no child. -/
theorem child_concat_nullptr (xs : List (BitVec w)) (m : ℕ) :
    ((xs ++ [nullptr w])[m]?.bind fun c => if c = nullptr w then none else some c.toNat) =
      xs[m]?.bind fun c => if c = nullptr w then none else some c.toNat := by
  rw [List.getElem?_append]
  by_cases hm : m < xs.length
  · rw [if_pos hm]
  · rw [if_neg hm, List.getElem?_eq_none (Nat.le_of_not_lt hm), Option.bind_none]
    cases m - xs.length with
    | zero => exact if_pos rfl
    | succ k => rfl

/-- A child that is added is the only one that is new. -/
theorem Valid.child_addChild (ht : t.Valid) (hn : n < t.size) (hcap : t.size + 1 ≤ capacity w)
    (m : ℕ) (c : Bool) :
    (t.addChild n b).child m c = if m = n ∧ c = b then some t.size else t.child m c := by
  have h_size : t.size < 2 ^ w - 1 := lt_of_lt_of_le hcap (min_le_left _ _)
  -- a node number is below the sentinel, so it is not read as no child
  have h_ne : BitVec.ofNat w t.size ≠ nullptr w := by
    intro heq
    have h_nat := congrArg BitVec.toNat heq
    rw [nullptr, BitVec.toNat_ofNat, BitVec.toNat_allOnes,
      Nat.mod_eq_of_lt (lt_of_lt_of_le h_size (Nat.sub_le _ _))] at h_nat
    exact absurd h_nat (Nat.ne_of_lt h_size)
  have h_new : (some (BitVec.ofNat w t.size)).bind
      (fun c => if c = nullptr w then none else some c.toNat) = some t.size := by
    rw [Option.bind_some, if_neg h_ne, BitVec.toNat_ofNat,
      Nat.mod_eq_of_lt (lt_of_lt_of_le h_size (Nat.sub_le _ _))]
  have h_set : ∀ xs : List (BitVec w), xs.length = t.size →
      (((xs ++ [nullptr w]).set n (BitVec.ofNat w t.size))[m]?.bind fun c =>
        if c = nullptr w then none else some c.toNat) =
      if m = n then some t.size else
        xs[m]?.bind fun c => if c = nullptr w then none else some c.toNat := by
    intro xs hxs
    rw [getElem?_set_concat_nullptr xs (hxs ▸ hn)]
    by_cases hm : m = n
    · rw [if_pos hm, if_pos hm, h_new]
    · rw [if_neg hm, if_neg hm, child_concat_nullptr]
  unfold child addChild
  cases b <;> cases c <;>
    simp only [Bool.false_eq_true, if_false, if_true, and_true, and_false, reduceCtorEq,
      h_set _ ht.left_length, h_set _ ht.right_length, child_concat_nullptr]

/-- A number that is not a node has no child. -/
theorem Valid.child_size (ht : t.Valid) (c : Bool) : t.child t.size c = none := by
  unfold child
  rw [List.getElem?_eq_none (by cases c <;> simp [ht.left_length, ht.right_length])]
  rfl

theorem Valid.child_size_addChild (ht : t.Valid) (hn : n < t.size)
    (hcap : t.size + 1 ≤ capacity w) (c : Bool) :
    (t.addChild n b).child t.size c = none := by
  rw [ht.child_addChild hn hcap, if_neg fun h => Nat.ne_of_gt hn h.1, ht.child_size]

/-- **A new node adds one path**, that of its parent and one more bit. -/
theorem Valid.walk_addChild (ht : t.Valid) (hp : t.walk p = some n) (hfree : t.child n b = none)
    (hcap : t.size + 1 ≤ capacity w) (q : List Bool) :
    (t.addChild n b).walk q = if q = p ++ [b] then some t.size else t.walk q := by
  have hn := ht.walk_lt hp
  -- on the path from its end: only the last step can be the new one
  induction q using List.reverseRecOn with
  | nil => rw [if_neg (by simp), walk_nil, walk_nil]
  | append_singleton q c ih =>
    rw [walk_concat, walk_concat, ih]
    by_cases hq : q = p ++ [b]
    · -- the new node has no child, and the old trie does not reach so far
      rw [if_pos hq, if_neg (by rw [hq]; simp), Option.bind_some,
        ht.child_size_addChild hn hcap, hq, walk_concat, hp, Option.bind_some, hfree]
      rfl
    · rw [if_neg hq]
      cases hw : t.walk q with
      | none =>
        rw [if_neg, Option.bind_none, Option.bind_none]
        intro heq
        rw [(List.append_inj' heq rfl).1, hp] at hw
        cases hw
      | some m =>
        rw [Option.bind_some, Option.bind_some, ht.child_addChild hn hcap]
        refine if_congr ⟨?_, ?_⟩ rfl rfl
        · rintro ⟨rfl, rfl⟩
          rw [ht.walk_inj hw hp]
        · intro heq
          obtain ⟨h_q, h_c⟩ := List.append_inj' heq rfl
          rw [h_q, hp] at hw
          exact ⟨(Option.some.inj hw).symm, (List.cons.inj h_c).1⟩

/-- Adding a child keeps a trie valid: the numbers, the paths and the depth. -/
theorem Valid.addChild (ht : t.Valid) (hp : t.walk p = some n) (hfree : t.child n b = none)
    (hcap : t.size + 1 ≤ capacity w) (hdepth : p.length < w) : (t.addChild n b).Valid := by
  have hn := ht.walk_lt hp
  have h_walk := ht.walk_addChild hp hfree hcap
  refine ⟨?_, ?_, ?_, Nat.succ_pos _, hcap, ?_, ?_, ?_⟩
  · unfold PatriciaTrie.addChild
    cases b <;> simp [ht.left_length]
  · unfold PatriciaTrie.addChild
    cases b <;> simp [ht.right_length]
  · simp [PatriciaTrie.addChild, ht.value_length]
  · -- `child_lt`: the new node has the last number
    intro m k c hk
    rw [ht.child_addChild hn hcap] at hk
    split at hk
    · exact (Option.some.inj hk) ▸ Nat.lt_succ_self _
    · exact Nat.lt_succ_of_lt (ht.child_lt hk)
  · -- `walk_inj`: a path to the new node is the one that was added
    intro q q' m hq hq'
    rw [h_walk] at hq hq'
    split at hq <;> split at hq'
    · next h h' => rw [h, h']
    · exact absurd (ht.walk_lt hq') (by rw [← Option.some.inj hq]; exact Nat.lt_irrefl _)
    · exact absurd (ht.walk_lt hq) (by rw [← Option.some.inj hq']; exact Nat.lt_irrefl _)
    · exact ht.walk_inj hq hq'
  · -- `depth`
    intro q m hq
    rw [h_walk] at hq
    split at hq
    · next h => rw [h, List.length_append]; exact hdepth
    · exact ht.depth hq

/-- A node that is added stores nothing. -/
theorem Valid.stored_addChild (ht : t.Valid) (hp : t.walk p = some n)
    (hfree : t.child n b = none) (hcap : t.size + 1 ≤ capacity w) (q : List Bool) :
    (t.addChild n b).stored q = t.stored q := by
  have h_value : (t.addChild n b).value = t.value ++ [nullptr 32] := rfl
  unfold stored
  rw [ht.walk_addChild hp hfree hcap, h_value]
  split
  · next h =>
    -- the new node, which has no value
    have h_none : t.walk q = none := by
      rw [h, walk_concat, hp]
      exact hfree
    rw [h_none, Option.bind_some, ← ht.value_length, List.getElem?_concat_length]
    rfl
  · cases hw : t.walk q with
    | none => rfl
    | some m =>
      have hm : m < t.value.length := ht.value_length ▸ ht.walk_lt hw
      rw [Option.bind_some, Option.bind_some, List.getElem?_append_left hm]

end AddChild

/-! ### `put` in three operations -/

/-- What `grow` yields: a trie that reaches the whole path and stores what was stored. -/
structure Grown (t : PatriciaTrie w) (q : List Bool) (r : PatriciaTrie w × ℕ) (k : ℕ) : Prop where
  valid : r.1.Valid
  walk_eq : r.1.walk q = some r.2
  stored_eq : ∀ q', r.1.stored q' = t.stored q'
  size_eq : r.1.size = t.size + k

/-- Growing a trie along bits adds a node for each of them. -/
theorem Valid.grow {t : PatriciaTrie w} (ht : t.Valid) {p : List Bool} {n : ℕ}
    (bs : List Bool) (hp : t.walk p = some n) (hfree : ∀ b ∈ bs.head?, t.child n b = none)
    (hcap : t.size + bs.length ≤ capacity w) (hdepth : (p ++ bs).length ≤ w) :
    Grown t (p ++ bs) (t.grow n bs) bs.length := by
  -- on the missing bits; each of them adds one leaf, where the next one is added
  induction bs generalizing t p n with
  | nil => exact ⟨ht, by rw [List.append_nil]; exact hp, fun _ => rfl, rfl⟩
  | cons b bs ih =>
    have h_free : t.child n b = none := hfree b rfl
    rw [List.length_cons] at hcap
    rw [List.length_append, List.length_cons] at hdepth
    have h_valid := ht.addChild hp h_free (by omega) (by omega)
    have h_walk : (t.addChild n b).walk (p ++ [b]) = some t.size := by
      rw [ht.walk_addChild hp h_free (by omega), if_pos rfl]
    have h_leaf := ht.child_size_addChild (b := b) (ht.walk_lt hp) (by omega)
    have h_size : (t.addChild n b).size = t.size + 1 := rfl
    obtain ⟨h1, h2, h3, h4⟩ := ih h_valid h_walk (fun c _ => h_leaf c)
      (by rw [h_size]; omega)
      (by rw [List.length_append, List.length_append, List.length_singleton]; omega)
    refine ⟨h1, ?_, fun q' => ?_, ?_⟩
    · rw [List.append_cons]
      exact h2
    · exact (h3 q').trans (ht.stored_addChild hp h_free (by omega) q')
    · rw [List.length_cons]
      exact h4.trans (by rw [h_size]; omega)

section Put

variable {key mask : BitVec w} {len : ℕ}

theorem extend_of_masked (t : PatriciaTrie w) {bit : BitVec w} (h : ¬ bit &&& mask ≠ 0)
    (fuel : ℕ) (node : BitVec w) : extend key mask fuel t bit node = .ok (t, node) := by
  cases fuel with
  | zero => rfl
  | succ fuel => exact if_neg h

theorem extend_succ (t : PatriciaTrie w) {bit : BitVec w} (h : bit &&& mask ≠ 0)
    (fuel : ℕ) (node : BitVec w) :
    extend key mask (fuel + 1) t bit node = (t.pushChild key bit node >>= fun t' =>
      extend key mask fuel t' (bit >>> 1) (BitVec.ofNat w t.size)) :=
  if_pos h

/-- **The second loop of `put` grows the path.** -/
theorem Valid.extend_eq {t : PatriciaTrie w} (ht : t.Valid) (key : BitVec w) (hlen : len ≤ w)
    (hmask : ∀ i, probe w (w - 1) i &&& mask ≠ 0 ↔ i < len) {p : List Bool} {n : ℕ}
    (bs : List Bool) (hp : t.walk p = some n) (hfree : ∀ b ∈ bs.head?, t.child n b = none)
    (hcap : t.size + bs.length ≤ capacity w) :
    ∀ {f : ℕ}, (pathOf key len).drop p.length = bs → p.length ≤ len →
      len ≤ p.length + f →
      extend key mask f t (probe w (w - 1) p.length) (BitVec.ofNat w n) =
        .ok ((t.grow n bs).1, BitVec.ofNat w (t.grow n bs).2) := by
  induction bs generalizing t p n with
  | nil =>
    intro fuel h_drop hi _
    have h_ge := List.drop_eq_nil_iff.mp h_drop
    rw [length_pathOf key hlen] at h_ge
    exact extend_of_masked t (fun h => Nat.not_lt_of_le h_ge ((hmask _).mp h)) fuel _
  | cons b bs ih =>
    intro fuel h_drop hi h_fuel
    obtain ⟨h_lt, h_bit, h_tail⟩ := head_drop_pathOf key hlen h_drop
    obtain ⟨fuel, rfl⟩ : ∃ f, fuel = f + 1 := ⟨fuel - 1, by omega⟩
    have h_free : t.child n b = none := hfree b rfl
    rw [List.length_cons] at hcap
    -- the first bit alone, for the trie that the next round starts from
    have h_grown := ht.grow [b] hp (fun c hc => by
      rw [List.head?_cons, Option.mem_some_iff] at hc
      rw [← hc]
      exact h_free) (by rw [List.length_singleton]; omega)
      (by rw [List.length_append, List.length_singleton]; omega)
    have h_step : t.grow n [b] = (t.addChild n b, t.size) := rfl
    rw [h_step] at h_grown
    have h_leaf := ht.child_size_addChild (b := b) (ht.walk_lt hp) (by omega)
    have h_len : (p ++ [b]).length = p.length + 1 := by
      rw [List.length_append, List.length_singleton]
    rw [extend_succ t ((hmask _).mpr h_lt), ht.pushChild_eq _ (ht.walk_lt hp), ok_bind, ← h_bit,
      probe_succ, ← h_len]
    exact ih h_grown.valid h_grown.walk_eq (fun c _ => h_leaf c)
      (by rw [h_grown.size_eq, List.length_singleton]; omega)
      (by rw [h_len]; exact h_tail) (by omega) (by omega)

/-- `put` on node numbers: find the node of `path`, adding what is missing, and set its
value. -/
def putAt (t : PatriciaTrie w) (path : List Bool) (v : BitVec 32) : PatriciaTrie w :=
  let r := t.grow (t.follow 0 path).1 (t.follow 0 path).2
  { r.1 with value := r.1.value.set r.2 v }

/-- The number of nodes that `put` adds for `path`. -/
def missing (t : PatriciaTrie w) (path : List Bool) : ℕ := (t.follow 0 path).2.length

theorem missing_le (t : PatriciaTrie w) (path : List Bool) : t.missing path ≤ path.length := by
  obtain ⟨pre, h_eq, _⟩ := follow_spec t (p := []) path (walk_nil t)
  have h_len := congrArg List.length h_eq
  rw [List.length_append] at h_len
  exact h_len ▸ Nat.le_add_left _ _

/-- Nothing is missing for a path that the trie reaches. -/
theorem missing_of_walk {t : PatriciaTrie w} {path : List Bool} {n : ℕ}
    (h : t.walk path = some n) : t.missing path = 0 := by
  obtain ⟨pre, h_eq, h_walk, h_stop⟩ := follow_spec t (p := []) path (walk_nil t)
  rw [List.nil_append] at h_walk
  unfold missing
  cases h_rest : (t.follow 0 path).2 with
  | nil => rfl
  | cons b bs =>
    -- the node where `follow` stopped would have the next node of the path as a child
    rw [h_rest] at h_eq h_stop
    have h_reach : t.walk (pre ++ [b] ++ bs) = some n := by
      rw [← List.append_cons, ← h_eq]
      exact h
    have h_dead : t.walk (pre ++ [b]) = none := by
      rw [walk_concat, h_walk]
      exact h_stop b rfl
    unfold walk at h_reach h_dead
    rw [List.foldlM_append, h_dead] at h_reach
    cases h_reach

theorem Valid.grow_follow {t : PatriciaTrie w} (ht : t.Valid) {path : List Bool}
    (hpath : path.length ≤ w) (hcap : t.size + t.missing path ≤ capacity w) :
    Grown t path (t.grow (t.follow 0 path).1 (t.follow 0 path).2) (t.missing path) := by
  obtain ⟨pre, h_eq, h_walk, h_stop⟩ := follow_spec t (p := []) path (walk_nil t)
  rw [List.nil_append] at h_walk
  have h_grown := ht.grow _ h_walk h_stop hcap (by rw [← h_eq]; exact hpath)
  rwa [← h_eq] at h_grown

theorem Valid.assign_value {t : PatriciaTrie w} (ht : t.Valid) {n : ℕ} (h : n < t.size)
    (v : BitVec 32) : assign t.value (asUsize (BitVec.ofNat w n)) v = .ok (t.value.set n v) := by
  rw [ht.asUsize_ofNat h, assign_of_lt (ht.value_length ▸ h)]

/-- **`put` on a valid trie.** With room for the missing nodes it returns, and sets the value
at the path made of the bits above the shift. -/
theorem Valid.put_eq {t : PatriciaTrie w} (ht : t.Valid) {p : Profile} {pre : UInt8} {d s : ℕ}
    (hd : p.sub 64 w pre.toNat = .ok d) (hs : p.shiftAmount w d = .ok s) (hsw : s < w)
    (key : BitVec w) (v : BitVec 32)
    (hcap : t.size + t.missing (pathOf key (w - s)) ≤ capacity w) :
    t.put p key pre v = .ok (t.putAt (pathOf key (w - s)) v) := by
  have hmask := probe_and_mask_ne_zero (w := w) hsw
  have hlen : w - s ≤ w := Nat.sub_le _ _
  set path := pathOf key (w - s) with h_path
  have h_path_len : path.length = w - s := length_pathOf key hlen
  have h_path_le : path.length ≤ w := h_path_len.trans_le hlen
  -- what is there of the path, and what is missing
  obtain ⟨pre', h_eq, h_walk, h_stop⟩ := follow_spec t (p := []) path (walk_nil t)
  rw [List.nil_append] at h_walk
  have h_grown := ht.grow_follow h_path_le hcap
  have h_descend := ht.descend_eq key hlen hmask path (f := w) (i := 0) (n := 0)
    List.drop_zero (Nat.zero_le _) (by omega) ht.size_pos
  rw [probe_zero] at h_descend
  have h_pre_len : pre'.length = w - s - (t.follow 0 path).2.length := by
    have h_len := congrArg List.length h_eq
    rw [List.length_append, h_path_len] at h_len
    omega
  have h_root : (0 : BitVec w) = 0#w := rfl
  unfold put
  rw [hd, ok_bind, hs, ok_bind]
  dsimp only
  rw [h_root, h_descend, ok_bind]
  dsimp only
  by_cases h_rest : (t.follow 0 path).2 = []
  · -- the path exists already
    have h_lt := ht.walk_lt h_walk
    rw [if_pos h_rest, if_pos (ht.ptr_ne_nullptr h_lt), ht.assign_value h_lt, ok_bind]
    unfold putAt
    rw [h_rest]
    rfl
  · have h_extend := ht.extend_eq key hlen hmask _ h_walk h_stop hcap (f := w)
      -- what is missing is added, and then the value is set
      (by rw [← h_path]; nth_rewrite 1 [h_eq]; exact List.drop_left) (by omega) (by omega)
    rw [if_neg h_rest, if_neg (fun h => h rfl), ← h_pre_len, h_extend, ok_bind]
    dsimp only
    rw [h_grown.valid.assign_value (h_grown.valid.walk_lt h_grown.walk_eq), ok_bind]
    rfl

end Put

/-! ### What `put` stores -/

theorem walk_set_value (t : PatriciaTrie w) (vs : List (BitVec 32)) (q : List Bool) :
    ({ t with value := vs } : PatriciaTrie w).walk q = t.walk q := rfl

/-- A value does not bear on the shape of a trie. -/
theorem Valid.set_value {t : PatriciaTrie w} (ht : t.Valid) (n : ℕ) (v : BitVec 32) :
    ({ t with value := t.value.set n v } : PatriciaTrie w).Valid where
  left_length := ht.left_length
  right_length := ht.right_length
  value_length := by rw [List.length_set]; exact ht.value_length
  size_pos := ht.size_pos
  size_le := ht.size_le
  child_lt h := ht.child_lt h
  walk_inj h h' := ht.walk_inj h h'
  depth h := ht.depth h

theorem Valid.putAt {t : PatriciaTrie w} (ht : t.Valid) {path : List Bool}
    (hpath : path.length ≤ w) (hcap : t.size + t.missing path ≤ capacity w) (v : BitVec 32) :
    (t.putAt path v).Valid :=
  (ht.grow_follow hpath hcap).valid.set_value _ v

theorem Valid.size_putAt {t : PatriciaTrie w} (ht : t.Valid) {path : List Bool}
    (hpath : path.length ≤ w) (hcap : t.size + t.missing path ≤ capacity w) (v : BitVec 32) :
    (t.putAt path v).size = t.size + t.missing path :=
  (ht.grow_follow hpath hcap).size_eq

/-- After a put its path is there. -/
theorem Valid.missing_putAt {t : PatriciaTrie w} (ht : t.Valid) {path : List Bool}
    (hpath : path.length ≤ w) (hcap : t.size + t.missing path ≤ capacity w) (v : BitVec 32) :
    (t.putAt path v).missing path = 0 :=
  missing_of_walk (ht.grow_follow hpath hcap).walk_eq

/-- **`put` changes the value at one path.** The value `u32::MAX` erases what was there. -/
theorem Valid.stored_putAt {t : PatriciaTrie w} (ht : t.Valid) {path : List Bool}
    (hpath : path.length ≤ w) (hcap : t.size + t.missing path ≤ capacity w) (v : BitVec 32)
    (q : List Bool) :
    (t.putAt path v).stored q =
      if path = q then (if v = nullptr 32 then none else some v) else t.stored q := by
  have h_grown := ht.grow_follow hpath hcap
  have h_valid := h_grown.valid
  rw [← h_grown.stored_eq q]
  unfold PatriciaTrie.putAt
  -- the trie with the path, and the node at its end
  set r := t.grow (t.follow 0 path).1 (t.follow 0 path).2
  unfold stored
  rw [walk_set_value]
  by_cases hq : path = q
  · subst hq
    have h_lt : r.2 < r.1.value.length := h_valid.value_length ▸ h_valid.walk_lt h_grown.walk_eq
    rw [if_pos rfl, h_grown.walk_eq, Option.bind_some, List.getElem?_set_self h_lt]
    by_cases hv : v = nullptr 32
    · rw [if_pos hv]
      exact Option.filter_some_neg (by simpa using hv)
    · rw [if_neg hv]
      exact Option.filter_some_pos (by simpa using hv)
  · rw [if_neg hq]
    cases hw : r.1.walk q with
    | none => rfl
    | some m =>
      -- two paths to one node are the same
      have h_ne : r.2 ≠ m := by
        rintro rfl
        exact hq (h_valid.walk_inj h_grown.walk_eq hw)
      rw [Option.bind_some, Option.bind_some, List.getElem?_set_ne h_ne]

/-! ### `get` -/

/-- The bits that `get` reads: from bit 31 down, then zeros. -/
def readBits (key : BitVec w) : List Bool := msbBits (key <<< (w - 32))

@[simp] theorem length_readBits (key : BitVec w) : (readBits key).length = w :=
  length_msbBits _

/-- The bit that `get` looks at in round `i`, when its probe begins at bit 31. -/
theorem getElem?_readBits (hw : 32 ≤ w) (key : BitVec w) {i : ℕ} (hi : i < w) :
    (readBits key)[i]? = some (decide (key &&& probe w (32 - 1) i ≠ 0)) := by
  rw [readBits, getElem?_msbBits _ hi, Option.some_inj, Bool.eq_iff_iff, decide_eq_true_iff,
    and_probe_ne_zero key (by omega), BitVec.getMsbD_shiftLeft, BitVec.getMsbD_eq_getLsbD,
    Bool.and_eq_true, decide_eq_true_iff]
  have h_idx : w - 1 - (i + (w - 32)) = 32 - 1 - i := by omega
  rw [h_idx]
  exact and_congr_left' ⟨fun _ => by omega, fun _ => by omega⟩

theorem walk_take_succ (t : PatriciaTrie w) {bs : List Bool} {i : ℕ} {b : Bool}
    (h : bs[i]? = some b) :
    t.walk (bs.take (i + 1)) = (t.walk (bs.take i)).bind fun n => t.child n b := by
  rw [List.take_add_one, h]
  exact walk_concat t _ b

/-- A path that leaves the trie does not come back. -/
theorem walk_take_none {t : PatriciaTrie w} {bs : List Bool} {i j : ℕ} (hij : i ≤ j)
    (h : t.walk (bs.take i) = none) : t.walk (bs.take j) = none := by
  obtain ⟨r, h_split⟩ := List.take_prefix_take_left (l := bs) hij
  unfold walk at h ⊢
  rw [← h_split, List.foldlM_append, h]
  rfl

theorem stored_of_walk_none {t : PatriciaTrie w} {q : List Bool} (h : t.walk q = none) :
    t.stored q = none := by
  unfold stored
  rw [h]
  rfl

theorem getLoop_nullptr (t : PatriciaTrie w) (key bit : BitVec w) (fuel : ℕ) (value : BitVec 32) :
    t.getLoop key (fuel + 1) bit value (nullptr w) = .ok value :=
  if_neg fun h => h rfl

/-- One round of the loop of `get` at a node of the trie. -/
theorem Valid.getLoop_succ {t : PatriciaTrie w} (ht : t.Valid) (key bit : BitVec w)
    {q : List Bool} {n : ℕ} (hq : t.walk q = some n) (fuel : ℕ) (o : Option (BitVec 32)) :
    t.getLoop key (fuel + 1) bit (o.getD (nullptr 32)) (BitVec.ofNat w n) =
      t.getLoop key fuel (bit >>> 1) (((t.stored q).or o).getD (nullptr 32))
        (ptr w (t.child n (decide (key &&& bit ≠ 0)))) := by
  have hn := ht.walk_lt hq
  obtain ⟨v, h_get⟩ : ∃ v, t.value[n]? = some v :=
    ⟨_, List.getElem?_eq_getElem (ht.value_length ▸ hn)⟩
  rw [getLoop, if_pos (ht.ptr_ne_nullptr hn), ht.asUsize_ofNat hn, index_of_getElem? h_get, ok_bind,
    ht.next_eq key bit hn, ok_bind]
  unfold stored
  rw [hq, Option.bind_some, h_get]
  by_cases hv : v = nullptr 32
  · rw [if_neg (not_not.mpr hv), Option.filter_some_neg (by simpa using hv), Option.none_or]
  · rw [if_pos hv, Option.filter_some_pos (by simpa using hv), Option.some_or]
    rfl

/-- **The loop of `get` keeps the last value on the way down.** -/
theorem Valid.getLoop_eq {t : PatriciaTrie w} (ht : t.Valid) (hw : 32 ≤ w) (key : BitVec w)
    (k : ℕ) : ∀ {i n f : ℕ}, i + k = w → k + 2 ≤ f →
      t.walk ((readBits key).take i) = some n →
      t.getLoop key f (probe w (32 - 1) i)
          ((latest (fun j => t.stored ((readBits key).take j)) i).getD (nullptr 32))
          (BitVec.ofNat w n) =
        .ok ((latest (fun j => t.stored ((readBits key).take j)) (w + 1)).getD (nullptr 32)) := by
  -- on the bits below; the loop reads all of them, and one node more
  induction k with
  | zero =>
    intro i n fuel hi h_fuel h_walk
    obtain ⟨fuel, rfl⟩ : ∃ f, fuel = f + 1 + 1 := ⟨fuel - 2, by omega⟩
    have h_full : ((readBits key).take i).length = w := by
      rw [List.length_take, length_readBits]
      omega
    obtain rfl : i = w := hi
    rw [ht.getLoop_succ key _ h_walk, ht.child_of_full h_walk h_full, ptr_none, getLoop_nullptr]
    rfl
  | succ k ih =>
    intro i n fuel hi h_fuel h_walk
    obtain ⟨fuel, rfl⟩ : ∃ f, fuel = f + 1 + 1 := ⟨fuel - 2, by omega⟩
    have h_bit := getElem?_readBits hw key (i := i) (by omega)
    have h_next := walk_take_succ t h_bit
    rw [h_walk, Option.bind_some] at h_next
    rw [ht.getLoop_succ key _ h_walk]
    cases hc : t.child n (decide (key &&& probe w (32 - 1) i ≠ 0)) with
    | none =>
      -- no node on the way any more, so nothing is stored below
      rw [hc] at h_next
      rw [ptr_none, getLoop_nullptr, latest_of_none_above (m := i + 1) (n := w + 1) (by omega)
        fun j hj _ => stored_of_walk_none (walk_take_none hj h_next)]
      rfl
    | some m =>
      rw [hc] at h_next
      rw [ptr_some, probe_succ]
      exact ih (by omega) (by omega) h_next

theorem stored_ne_nullptr {t : PatriciaTrie w} {q : List Bool} {v : BitVec 32}
    (h : t.stored q = some v) : v ≠ nullptr 32 := by
  have h_pred := (Option.filter_eq_some_iff.mp h).2
  simpa using h_pred

/-- **`get` on a valid trie**: the last value stored on the path that the bits of `key` from
bit 31 down spell. -/
theorem Valid.get_eq {t : PatriciaTrie w} (ht : t.Valid) (hw : 32 ≤ w) (key : BitVec w) :
    t.get key = .ok (latest (fun j => t.stored ((readBits key).take j)) (w + 1)) := by
  have h_loop := ht.getLoop_eq hw key w (i := 0) (n := 0) (f := w + t.size + 2)
    (Nat.zero_add w) (by omega) (by rw [List.take_zero, walk_nil])
  rw [probe_zero] at h_loop
  have h_root : (0 : BitVec w) = BitVec.ofNat w 0 := rfl
  unfold get
  rw [h_root]
  change (t.getLoop key _ _ (nullptr 32) _ >>= _) = _
  rw [show nullptr 32 = (latest (fun j => t.stored ((readBits key).take j)) 0).getD (nullptr 32)
    from rfl, h_loop, ok_bind]
  cases h : latest (fun j => t.stored ((readBits key).take j)) (w + 1) with
  | none => rfl
  | some v =>
    obtain ⟨j, hj⟩ := exists_of_latest h
    exact congrArg Except.ok (if_neg (stored_ne_nullptr hj))

end PatriciaTrie

end V2ray
