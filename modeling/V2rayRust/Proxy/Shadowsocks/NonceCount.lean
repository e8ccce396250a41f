import V2rayRust.Proxy.Shadowsocks.AeadHelper

/-!
# The nonces of a cipher

`AeadCipher` of `proxy/shadowsocks/aead_helper.rs` over a run of calls. A call that returns
counts the nonce up, whether it seals, opens or fails to open (`call_eq_ok`), so a cipher is
after `k` calls what `increase_nonce` makes of it `k` times (`calls_spec`), and its nonce holds
`k` (`iterate_fresh`). Nothing else is needed: the nonces of a run are the numbers of its calls.
-/

namespace V2ray

/-- A call of a cipher, on a message with room for a tag or on a sealed message. -/
inductive AeadCall
  | encrypt (message : List UInt8)
  | decrypt (buffer : List UInt8)
  deriving DecidableEq

/-- A buffer that holds a tag; without one, `decrypt` panics. -/
def AeadCall.HoldsTag : AeadCall → Prop
  | .encrypt _ => True
  | .decrypt buffer => tagSize ≤ buffer.length

/-- A call that returned: the nonce it has used, what it returned (`true` for `encrypt`), and
its buffer. -/
structure AeadReturn where
  nonce : List UInt8
  ret : Bool
  buffer : List UInt8
  deriving DecidableEq

/-- The return is what the primitive gives for this call and the nonce of the return. -/
def AeadReturn.Answers (A : Aead) (p : Profile) (kind : CipherKind) (key : List UInt8)
    (r : AeadReturn) : AeadCall → Prop
  | .encrypt message => r.ret = true ∧ r.buffer = A.encryptInPlace kind key r.nonce message
  | .decrypt buffer =>
    A.decryptInplaceWithSlice p kind key r.nonce buffer = .ok (r.ret, r.buffer)

namespace AeadCipher

variable (A : Aead) (p : Profile)

/-- A cipher before its first call. -/
def fresh (kind : CipherKind) (key : List UInt8) (nlen : ℕ) : AeadCipher where
  kind := kind
  key := key
  nonce := List.replicate 24 0
  nlen := nlen

def call (c : AeadCipher) : AeadCall → Except Fault (AeadReturn × AeadCipher)
  | .encrypt message =>
    let (buffer, c') := c.encrypt A message
    .ok (⟨c.nonce.take c.nlen, true, buffer⟩, c')
  | .decrypt buffer => do
    let (ret, buffer, c') ← c.decrypt A p buffer
    return (⟨c.nonce.take c.nlen, ret, buffer⟩, c')

/-- Calls one after the other, up to the first that panics. -/
def calls (c : AeadCipher) : List AeadCall → List AeadReturn × AeadCipher
  | [] => ([], c)
  | x :: xs =>
    match c.call A p x with
    | .ok (r, c') =>
      let (rs, c'') := c'.calls xs
      (r :: rs, c'')
    | .error _ => ([], c)

variable {A p} {c c' : AeadCipher} {r : AeadReturn} {x : AeadCall}

/-- **A call that returns counts up**, with whatever result. -/
theorem call_eq_ok (h : c.call A p x = .ok (r, c')) :
    r.nonce = c.nonce.take c.nlen ∧ r.Answers A p c.kind c.key x ∧ c' = c.increaseNonce := by
  cases x with
  | encrypt message =>
    cases h
    exact ⟨rfl, ⟨rfl, rfl⟩, rfl⟩
  | decrypt buffer =>
    obtain ⟨⟨ret, out, c₁⟩, h_dec, h⟩ := bind_eq_ok.mp h
    obtain ⟨⟨ret', out'⟩, h_open, h_ret⟩ := bind_eq_ok.mp h_dec
    cases h_ret
    cases h
    exact ⟨rfl, h_open, rfl⟩

/-- Only a buffer without a tag keeps a call from returning. -/
theorem exists_call_iff : (∃ y, c.call A p x = .ok y) ↔ x.HoldsTag := by
  cases x with
  | encrypt message => exact ⟨fun _ => trivial, fun _ => ⟨_, rfl⟩⟩
  | decrypt buffer =>
    constructor
    · rintro ⟨⟨r, c'⟩, h⟩
      by_contra h_tag
      -- the primitive has returned, but it would have panicked
      have h_open : A.decryptInplaceWithSlice p c.kind c.key r.nonce buffer =
          .ok (r.ret, r.buffer) := (call_eq_ok h).2.1
      obtain ⟨f, h_f⟩ : ∃ f, A.decryptInplaceWithSlice p c.kind c.key r.nonce buffer = .error f :=
        Aead.decryptInplace_of_lt (Nat.lt_of_not_le h_tag)
      rw [h_f] at h_open
      cases h_open
    · intro h_tag
      obtain ⟨⟨ret, out⟩, h_open⟩ : ∃ y,
          A.decryptInplaceWithSlice p c.kind c.key (c.nonce.take c.nlen) buffer = .ok y := by
        rw [Aead.decryptInplace_of_le h_tag]
        -- whether the message opens makes no difference here
        cases A.decryptInPlace c.kind c.key (c.nonce.take c.nlen) buffer with
        | none => exact ⟨_, rfl⟩
        | some message => exact ⟨_, rfl⟩
      have h_dec : c.decrypt A p buffer = .ok (ret, out, c.increaseNonce) := by
        rw [decrypt, h_open]
        rfl
      refine ⟨⟨⟨c.nonce.take c.nlen, ret, out⟩, c.increaseNonce⟩, ?_⟩
      rw [call, h_dec]
      rfl

/-! ### Runs -/

theorem calls_cons_ok {xs : List AeadCall} (h : c.call A p x = .ok (r, c')) :
    c.calls A p (x :: xs) = (r :: (c'.calls A p xs).1, (c'.calls A p xs).2) := by
  rw [calls, h]

theorem calls_cons_error {xs : List AeadCall} {f : Fault} (h : c.call A p x = .error f) :
    c.calls A p (x :: xs) = ([], c) := by
  rw [calls, h]

/-- What `rs` are for the calls `xs` of a cipher: the `k`-th is the answer to its call by the
cipher after `k` others. -/
def AnswersCalls (A : Aead) (p : Profile) (c : AeadCipher) (xs : List AeadCall)
    (rs : List AeadReturn) : Prop :=
  ∀ k r, rs[k]? = some r →
    r.nonce = (increaseNonce^[k] c).nonce.take c.nlen ∧
      ∃ x, xs[k]? = some x ∧ r.Answers A p c.kind c.key x

/-- **A run counts its calls.** -/
theorem calls_spec (c : AeadCipher) (xs : List AeadCall) :
    AnswersCalls A p c xs (c.calls A p xs).1 ∧
      (c.calls A p xs).2 = increaseNonce^[(c.calls A p xs).1.length] c := by
  -- on the calls; a call that panics is the last one
  induction xs generalizing c with
  | nil => exact ⟨fun _ _ h_none => (by cases h_none), rfl⟩
  | cons x xs ih =>
    cases h : c.call A p x with
    | error f =>
      rw [calls_cons_error h]
      exact ⟨fun _ _ h_none => (by cases h_none), rfl⟩
    | ok y =>
      obtain ⟨r, c'⟩ := y
      obtain ⟨h_nonce, h_ans, rfl⟩ := call_eq_ok h
      obtain ⟨ih_ans, ih_last⟩ := ih c.increaseNonce
      rw [calls_cons_ok h]
      refine ⟨?_, ih_last⟩
      intro k s h_s
      cases k with
      | zero =>
        cases h_s
        exact ⟨h_nonce, x, rfl, h_ans⟩
      | succ k => exact ih_ans k s h_s

/-- A run ends before its last call only at a buffer without a tag. -/
theorem length_calls (c : AeadCipher) {xs : List AeadCall} (h : ∀ x ∈ xs, x.HoldsTag) :
    (c.calls A p xs).1.length = xs.length := by
  induction xs generalizing c with
  | nil => rfl
  | cons x xs ih =>
    obtain ⟨⟨r, c'⟩, h_call⟩ := exists_call_iff.mpr (h x List.mem_cons_self)
    rw [calls_cons_ok h_call]
    exact congrArg Nat.succ (ih c' fun y h_y => h y (List.mem_cons_of_mem x h_y))

/-! ### The numbers -/

theorem drop_iterate (h : c.Counts) (k : ℕ) :
    (increaseNonce^[k] c).nonce.drop c.nlen = c.nonce.drop c.nlen := by
  induction k with
  | zero => rfl
  | succ k ih =>
    obtain ⟨h_k, h_nlen, _⟩ := counts_iterate h k
    have h_drop := h_k.drop_increaseNonce
    rw [h_nlen] at h_drop
    rw [Function.iterate_succ_apply', h_drop, ih]

/-- **The nonce after `k` calls** holds `k`, and zeros after it. -/
theorem iterate_fresh (kind : CipherKind) (key : List UInt8) {nlen : ℕ} (h_pos : 1 ≤ nlen)
    (h_le : nlen ≤ 24) (k : ℕ) :
    (increaseNonce^[k] (fresh kind key nlen)).nonce.take nlen =
        leBytes nlen (k % 2 ^ (8 * nlen)) ∧
      (increaseNonce^[k] (fresh kind key nlen)).nonce.drop nlen =
        List.replicate (24 - nlen) 0 := by
  have h_counts : (fresh kind key nlen).Counts := ⟨h_pos, h_le.trans_eq List.length_replicate.symm⟩
  obtain ⟨h_k, h_nlen, h_count⟩ := counts_iterate h_counts k
  have h_len : nlen ≤ (increaseNonce^[k] (fresh kind key nlen)).nonce.length :=
    h_nlen.symm.trans_le h_k.nlen_le
  have h_zero : (fresh kind key nlen).count = 0 := by
    show ofLeBytes ((List.replicate 24 0).take nlen) = 0
    rw [List.take_replicate, ofLeBytes_replicate_zero]
  constructor
  · have h_value : ofLeBytes ((increaseNonce^[k] (fresh kind key nlen)).nonce.take nlen) =
        k % 2 ^ (8 * nlen) := by
      have h_sum : (increaseNonce^[k] (fresh kind key nlen)).count = k % 256 ^ nlen := by
        rw [h_count, h_zero, Nat.zero_add]
        rfl
      rw [count, h_nlen] at h_sum
      rw [Nat.pow_mul]
      exact h_sum
    -- bytes are the encoding of their value
    have h_back := leBytes_ofLeBytes ((increaseNonce^[k] (fresh kind key nlen)).nonce.take nlen)
    rw [List.length_take_of_le h_len, h_value] at h_back
    exact h_back.symm
  · have h_drop : (increaseNonce^[k] (fresh kind key nlen)).nonce.drop nlen =
        (List.replicate 24 0).drop nlen := drop_iterate h_counts k
    rw [h_drop, List.drop_replicate]

/-- A run whose nonces are the numbers of its calls. -/
structure Numbered (A : Aead) (p : Profile) (kind : CipherKind) (key : List UInt8) (nlen : ℕ)
    (xs : List AeadCall) (run : List AeadReturn × AeadCipher) : Prop where
  nonce_eq : ∀ (k : ℕ) (r : AeadReturn), run.1[k]? = some r →
    r.nonce = leBytes nlen (k % 2 ^ (8 * nlen))
  /-- the nonces are those that the calls are made with -/
  answers : ∀ (k : ℕ) (r : AeadReturn), run.1[k]? = some r →
    ∃ x, xs[k]? = some x ∧ r.Answers A p kind key x
  drop_eq : run.2.nonce.drop nlen = List.replicate (24 - nlen) 0
  /-- the calls from one use of a nonce to the next -/
  no_reuse : ∀ (i j : ℕ) (r s : AeadReturn), i < j → run.1[i]? = some r → run.1[j]? = some s →
    r.nonce = s.nonce → 2 ^ (8 * nlen) + 1 ≤ j - i + 1
  /-- no call is left out -/
  length_eq : (∀ x ∈ xs, x.HoldsTag) → run.1.length = xs.length

/-- Two runs that have used the same nonces, as far as both go. -/
structure InStep (run run' : List AeadReturn × AeadCipher) : Prop where
  nonce_eq : ∀ (k : ℕ) (r s : AeadReturn), run.1[k]? = some r → run'.1[k]? = some s →
    r.nonce = s.nonce
  cipher_eq : run.1.length = run'.1.length → run.2 = run'.2

/-- The nonces of calls are their numbers. -/
theorem numbered_calls (A : Aead) (p : Profile) (kind : CipherKind) (key : List UInt8) {nlen : ℕ}
    (h_pos : 1 ≤ nlen) (h_le : nlen ≤ 24) (xs : List AeadCall) :
    Numbered A p kind key nlen xs ((fresh kind key nlen).calls A p xs) := by
  obtain ⟨h_answers, h_last⟩ := calls_spec (A := A) (p := p) (fresh kind key nlen) xs
  have h_nonce (k : ℕ) (r : AeadReturn)
      (h_r : ((fresh kind key nlen).calls A p xs).1[k]? = some r) :
      r.nonce = leBytes nlen (k % 2 ^ (8 * nlen)) :=
    (h_answers k r h_r).1.trans (iterate_fresh kind key h_pos h_le k).1
  refine ⟨h_nonce, fun k r h_r => (h_answers k r h_r).2, ?_, ?_, length_calls _⟩
  · rw [h_last]
    exact (iterate_fresh kind key h_pos h_le _).2
  · intro i j r s h_lt h_r h_s h_eq
    rw [h_nonce i r h_r, h_nonce j s h_s] at h_eq
    have h_size : 2 ^ (8 * nlen) = 256 ^ nlen := Nat.pow_mul 2 8 nlen
    have h_mod (k : ℕ) : k % 2 ^ (8 * nlen) < 256 ^ nlen :=
      h_size ▸ Nat.mod_lt k (Nat.pow_pos (by decide))
    have h_same : i % 2 ^ (8 * nlen) = j % 2 ^ (8 * nlen) := leBytes_inj (h_mod i) (h_mod j) h_eq
    -- numbers that agree modulo the size differ by a multiple of it
    have h_dvd : 2 ^ (8 * nlen) ∣ j - i := (Nat.modEq_iff_dvd' h_lt.le).mp h_same
    exact Nat.succ_le_succ (Nat.le_of_dvd (Nat.sub_pos_of_lt h_lt) h_dvd)

theorem inStep_calls (A : Aead) (p : Profile) (c : AeadCipher) (xs ys : List AeadCall) :
    InStep (c.calls A p xs) (c.calls A p ys) := by
  obtain ⟨h_xs, h_last⟩ := calls_spec (A := A) (p := p) c xs
  obtain ⟨h_ys, h_last'⟩ := calls_spec (A := A) (p := p) c ys
  constructor
  · intro k r s h_r h_s
    rw [(h_xs k r h_r).1, (h_ys k s h_s).1]
  · intro h_len
    rw [h_last, h_last', h_len]

/-- **Every call has its number.** In any run of a cipher from its start the nonces count the
calls, and a cipher created alike stays in step, whatever either is called with. -/
theorem nonces_number_calls (A : Aead) (p : Profile) (kind : CipherKind) (key : List UInt8)
    {nlen : ℕ} (h_pos : 1 ≤ nlen) (h_le : nlen ≤ 24) (xs ys : List AeadCall) :
    Numbered A p kind key nlen xs ((fresh kind key nlen).calls A p xs) ∧
      InStep ((fresh kind key nlen).calls A p xs) ((fresh kind key nlen).calls A p ys) :=
  ⟨numbered_calls A p kind key h_pos h_le xs, inStep_calls A p (fresh kind key nlen) xs ys⟩

/-- A call that does not open counts, too. -/
theorem nonces_number_calls_failed :
    let xs : List AeadCall := [.encrypt [1, 2], .decrypt (List.replicate 16 7), .encrypt [3]]
    Numbered .tagged .debug .aes128Gcm [9] 12 xs
        ((fresh .aes128Gcm [9] 12).calls .tagged .debug xs) ∧
      InStep ((fresh .aes128Gcm [9] 12).calls .tagged .debug xs)
        ((fresh .aes128Gcm [9] 12).calls .tagged .debug [.decrypt (List.replicate 16 0)]) :=
  nonces_number_calls .tagged .debug .aes128Gcm [9] (by decide) (by decide) _ _

end AeadCipher

end V2ray
