import V2rayRust.Lib.Tasks
import V2rayRust.Proxy.Shadowsocks.Context
import V2rayRust.Proxy.Shadowsocks.CryptoIo

/-!
# Salts

All Shadowsocks connections of a client share one replay filter: a new connection draws salts until
the filter has not seen one (the loop of `CryptoStream::new`), and the salt of a peer is refused if
the filter has seen it (`poll_read_handshake`). The filter is locked for each check, so checks of
many connections come one after the other, in any order. Whatever the order, a salt that was taken,
of one side or the other, is not taken again until 5000 others have been (`fresh_of_run`): no two
connections encrypt under one salt, and no peer can answer with a salt of ours.
-/

namespace V2ray

/-! ### What a filter has taken -/

/-- Equal items are more than `window` items apart. -/
def Apart (window : ℕ) (xs : List (List UInt8)) : Prop :=
  ∀ i j x, i < j → xs[i]? = some x → xs[j]? = some x → i + window + 1 < j

/-- One more item, far from its equals. -/
theorem apart_concat {window : ℕ} {xs : List (List UInt8)} {x : List UInt8} (h : Apart window xs)
    (h_x : ∀ i, xs[i]? = some x → i + window + 1 < xs.length) : Apart window (xs ++ [x]) := by
  intro i j y h_lt h_i h_j
  have h_bound : j < (xs ++ [x]).length := (List.getElem?_eq_some_iff.mp h_j).1
  rw [List.length_append, List.length_singleton] at h_bound
  by_cases h_last : j = xs.length
  · subst h_last
    rw [List.getElem?_concat_length] at h_j
    cases h_j
    rw [List.getElem?_append_left h_lt] at h_i
    exact h_x i h_i
  · have h_in : j < xs.length := by omega
    rw [List.getElem?_append_left h_in] at h_j
    rw [List.getElem?_append_left (Nat.lt_trans h_lt h_in)] at h_i
    exact h i j y h_lt h_i h_j

namespace PingPongBloom

variable {B : Type} {F : Bloom B} {s : PingPongBloom B} {taken : List (List UInt8)}
variable {x : List UInt8}

/-- The filter knows the items that it has taken, but for those too long ago. -/
structure Knows (F : Bloom B) (s : PingPongBloom B) (taken : List (List UInt8)) : Prop where
  held : ∀ i x, taken[i]? = some x → Held F x s (taken.length - i - 1)
  apart : Apart s.itemCount taken

/-- An item that is found is not taken. -/
theorem Knows.found (h : Knows F s taken) (h_found : (checkAndSet F s x).1 = true) :
    Knows F (checkAndSet F s x).2 taken := by
  have h_call := call (F := F) s x
  generalize checkAndSet F s x = r at h_found h_call ⊢
  cases h_call with
  | found => exact h
  | room | full => cases h_found

/-- **An item that is taken** has not been taken for a whole share. -/
theorem Knows.new (h : Knows F s taken) (h_remembers : F.Remembers)
    (h_new : (checkAndSet F s x).1 = false) :
    Knows F (checkAndSet F s x).2 (taken ++ [x]) where
  held i y h_i := by
    rw [List.length_append, List.length_singleton]
    by_cases h_last : i < taken.length
    · rw [List.getElem?_append_left h_last] at h_i
      have h_held := held_checkAndSet h_remembers (h.held i y h_i) x
      rw [h_new] at h_held
      have h_since : taken.length - i - 1 + [false].count false = taken.length + 1 - i - 1 := by
        rw [List.count_singleton_self]
        omega
      exact h_since ▸ h_held
    · have h_bound : i < (taken ++ [x]).length := (List.getElem?_eq_some_iff.mp h_i).1
      rw [List.length_append, List.length_singleton] at h_bound
      obtain rfl : i = taken.length := by omega
      rw [List.getElem?_concat_length] at h_i
      cases h_i
      have h_zero : taken.length + 1 - taken.length - 1 = 0 := by omega
      exact h_zero ▸ held_of_new h_remembers h_new
  apart := by
    rw [itemCount_checkAndSet]
    refine apart_concat h.apart fun i h_i => ?_
    by_contra h_near
    -- it would be found
    have h_found := checkAndSet_of_held (h.held i x h_i) (by omega)
    rw [h_new] at h_found
    cases h_found

end PingPongBloom

/-! ### The connections -/

/-- A nonce that the filter has taken: for which connection, and whether it is our own salt. -/
structure Taken where
  link : ℕ
  own : Bool
  nonce : List UInt8

/-- A connection: in the loop of `CryptoStream::new`, or made. -/
inductive SaltLink
  | drawing (method : CipherKind) (key : List UInt8)
  | opened (s : CryptoStream)

/-- The filter, the connections that share it, and the nonces it has taken. -/
structure Salts (B : Type) where
  context : BloomContext B
  links : List SaltLink
  taken : List Taken

/-- What happens next. -/
inductive SaltTurn
  | connect (method : CipherKind) (key : List UInt8)
  /-- a turn of the loop that draws this salt -/
  | draw (i : ℕ) (salt : List UInt8)
  /-- `poll_read`, of a stream that brings these events -/
  | read (i : ℕ) (es : List ReadEvent) (room : ℕ)

namespace CryptoStream

/-- The nonce that a poll checks: the salt of the peer, when it has come. -/
def checkedNonce (s : CryptoStream) (es : List ReadEvent) : Option (List UInt8) :=
  match s.readStatus with
  | .established => none
  | .waitIv buf method _ =>
    match readExact method.saltLen buf es with
    | (.full, nonce, _) => some nonce
    | _ => none

end CryptoStream

namespace CryptoStream

variable {A : Aead} {p : Profile} {check : List UInt8 → Bool} {s : CryptoStream}
variable {es : List ReadEvent} {room : ℕ} {x : ReadPoll CryptoStream}

/-- A read changes the decryption only. -/
theorem polled_established (h : s.privPollRead A p check es room = .ok x)
    (h_status : s.readStatus = .established) :
    x.state.enc = s.enc ∧ x.state.readStatus = .established := by
  have h_shake : pollReadHandshake A check s es = .done s es := by
    unfold pollReadHandshake
    rw [h_status]
  unfold privPollRead at h
  rw [h_shake] at h
  dsimp only at h
  split at h
  · cases h
  · split at h <;> cases h <;> exact ⟨rfl, h_status⟩
  · obtain ⟨y, -, h_y⟩ := bind_eq_ok.mp h
    cases h_y
    exact ⟨rfl, h_status⟩

/-- **A poll before the salt of the peer has come**: it checks the salt, when it is complete. -/
theorem polled_waitIv (h : s.privPollRead A p check es room = .ok x) {buf key : List UInt8}
    {method : CipherKind} (h_status : s.readStatus = .waitIv buf method key)
    (h_le : buf.length ≤ method.saltLen) :
    x.state.enc = s.enc ∧
      ((s.checkedNonce es = none ∧ ∃ buf', x.state.readStatus = .waitIv buf' method key ∧
          buf'.length ≤ method.saltLen) ∨
        ∃ nonce, s.checkedNonce es = some nonce ∧ nonce.length = method.saltLen ∧
          (check nonce = true ∧ x.state.readStatus = .waitIv nonce method key ∨
            check nonce = false ∧ x.state.readStatus = .established)) := by
  unfold checkedNonce
  rw [h_status]
  dsimp only
  rcases h_read : readExact method.saltLen buf es with ⟨f, buf', es'⟩
  obtain ⟨-, h_le', h_full⟩ := readExact_cases h_le h_read
  cases f with
  | pending | err message | ended =>
    unfold privPollRead pollReadHandshake at h
    rw [h_status] at h
    dsimp only at h
    rw [h_read] at h
    cases h
    exact ⟨rfl, .inl ⟨rfl, buf', rfl, h_le'⟩⟩
  | full =>
    cases h_check : check buf' with
    | true =>
      unfold privPollRead pollReadHandshake at h
      rw [h_status] at h
      dsimp only at h
      rw [h_read] at h
      dsimp only at h
      rw [if_pos h_check] at h
      cases h
      exact ⟨rfl, .inr ⟨buf', rfl, h_full rfl, .inl ⟨h_check, rfl⟩⟩⟩
    | false =>
      -- the poll goes on as one of the stream that it has made
      have h_shake : ∃ dec, pollReadHandshake A check s es =
          .done { s with dec := some dec, readStatus := .established } es' := by
        unfold pollReadHandshake
        rw [h_status]
        dsimp only
        rw [h_read]
        dsimp only
        rw [if_neg (by rw [h_check]; decide)]
        exact ⟨_, rfl⟩
      obtain ⟨dec, h_shake⟩ := h_shake
      let s' : CryptoStream := { s with dec := some dec, readStatus := .established }
      have h' : s'.privPollRead A p check es' room = .ok x := by
        have h_established : pollReadHandshake A check s' es' = .done s' es' := rfl
        unfold privPollRead at h ⊢
        rw [h_shake] at h
        rw [h_established]
        exact h
      obtain ⟨h_enc, h_done⟩ := polled_established h' rfl
      exact ⟨h_enc, .inr ⟨buf', rfl, h_full rfl, .inr ⟨h_check, h_done⟩⟩⟩

end CryptoStream

namespace Salts

variable {B : Type} (F : Bloom B) (A : Aead) (p : Profile)

def start : Salts B := ⟨.new F true, [], []⟩

def step (S : Salts B) : SaltTurn → Option (Salts B)
  | .connect method key =>
    let link := if method = .none then .opened (.new A key method []) else .drawing method key
    some { S with links := S.links ++ [link] }
  | .draw i salt =>
    match S.links[i]? with
    | some (.drawing method key) =>
      if salt.length = method.saltLen then
        let (found, context) := S.context.checkNonceAndSet F salt
        if found then some { S with context }
        else some {
          context
          links := S.links.set i (.opened (.new A key method salt))
          taken := S.taken ++ [⟨i, true, salt⟩] }
      else none
    | _ => none
  | .read i es room =>
    match S.links[i]? with
    | some (.opened s) =>
      match s.privPollRead A p (fun nonce => (S.context.checkNonceAndSet F nonce).1) es room with
      | .ok x =>
        let S := { S with links := S.links.set i (.opened x.state) }
        match s.checkedNonce es with
        | some nonce =>
          let (found, context) := S.context.checkNonceAndSet F nonce
          if found then some { S with context }
          else some { S with context, taken := S.taken ++ [⟨i, false, nonce⟩] }
        | none => some S
      | .error _ => none
    | _ => none

/-- The nonces that were taken for a connection, of one side. -/
def takenBy (S : Salts B) (i : ℕ) (own : Bool) : List (List UInt8) :=
  (S.taken.filter fun t => t.link = i ∧ t.own = own).map Taken.nonce

variable {F A p} {S S' : Salts B} {turn : SaltTurn}

/-! ### What every turn keeps -/

/-- What has been taken for a connection. -/
inductive Known (A : Aead) (own peer : List (List UInt8)) : SaltLink → Prop
  | drawing {method : CipherKind} {key : List UInt8} (aead : method ≠ .none) (own_eq : own = [])
      (peer_eq : peer = []) : Known A own peer (.drawing method key)
  | plain {s : CryptoStream} (enc_eq : s.enc = .none) (status_eq : s.readStatus = .established)
      (own_eq : own = []) (peer_eq : peer = []) : Known A own peer (.opened s)
  | waitIv {s : CryptoStream} {method : CipherKind} {key salt buf : List UInt8}
      (aead : method ≠ .none) (enc_eq : s.enc = .aead (.new A method key salt))
      (own_eq : own = [salt]) (status_eq : s.readStatus = .waitIv buf method key)
      (buf_le : buf.length ≤ method.saltLen) (peer_eq : peer = []) : Known A own peer (.opened s)
  | established {s : CryptoStream} {method : CipherKind} {key salt nonce : List UInt8}
      (enc_eq : s.enc = .aead (.new A method key salt)) (own_eq : own = [salt])
      (status_eq : s.readStatus = .established) (peer_eq : peer = [nonce]) :
      Known A own peer (.opened s)

/-- The filter knows what it has taken, and what for. -/
structure Fresh (F : Bloom B) (A : Aead) (S : Salts B) : Prop where
  knows : PingPongBloom.Knows F S.context.noncePpbloom (S.taken.map Taken.nonce)
  itemCount_eq : S.context.noncePpbloom.itemCount = 5000
  link_lt : ∀ t ∈ S.taken, t.link < S.links.length
  known : ∀ i link, S.links[i]? = some link → Known A (S.takenBy i true) (S.takenBy i false) link

theorem fresh_start : Fresh F A (start F) where
  knows := ⟨fun i x h => (by cases h), fun i j x _ h => (by cases h)⟩
  itemCount_eq := rfl
  link_lt t h := by cases h
  known i link h := by cases h

theorem takenBy_concat (S : Salts B) (t : Taken) (context : BloomContext B) (links : List SaltLink)
    (i : ℕ) (own : Bool) : takenBy ⟨context, links, S.taken ++ [t]⟩ i own =
      S.takenBy i own ++ if t.link = i ∧ t.own = own then [t.nonce] else [] := by
  unfold takenBy
  rw [List.filter_append, List.map_append]
  by_cases h : t.link = i ∧ t.own = own <;> simp [h]

/-- A nonce that is not empty goes to the filter. -/
theorem checkNonceAndSet_eq {c : BloomContext B} {nonce : List UInt8} (h : nonce ≠ []) :
    c.checkNonceAndSet F nonce = ((c.noncePpbloom.checkAndSet F nonce).1,
      ⟨(c.noncePpbloom.checkAndSet F nonce).2⟩) := by
  unfold BloomContext.checkNonceAndSet
  rw [if_neg h]

theorem ne_nil_of_saltLen {method : CipherKind} (h : method ≠ .none) {nonce : List UInt8}
    (h_len : nonce.length = method.saltLen) : nonce ≠ [] := by
  rintro rfl
  cases method <;> first | exact h rfl | cases h_len

/-- A nonce is found, and nothing is taken. -/
theorem Fresh.found (h : Fresh F A S) {nonce : List UInt8} (h_nonce : nonce ≠ [])
    (h_found : (S.context.checkNonceAndSet F nonce).1 = true) :
    Fresh F A { S with context := (S.context.checkNonceAndSet F nonce).2 } := by
  rw [checkNonceAndSet_eq h_nonce] at h_found ⊢
  refine ⟨h.knows.found h_found, ?_, h.link_lt, h.known⟩
  exact (PingPongBloom.itemCount_checkAndSet _ nonce).trans h.itemCount_eq

theorem eq_of_set {links : List SaltLink} {i : ℕ} {link link' : SaltLink}
    (h : (links.set i link)[i]? = some link') : link' = link := by
  rw [List.getElem?_set_self'] at h
  obtain ⟨_, -, h_eq⟩ := Option.map_eq_some_iff.mp h
  exact h_eq.symm

/-- A connection has changed. -/
theorem Fresh.set (h : Fresh F A S) {i : ℕ} {link : SaltLink}
    (h_link : Known A (S.takenBy i true) (S.takenBy i false) link) :
    Fresh F A { S with links := S.links.set i link } where
  knows := h.knows
  itemCount_eq := h.itemCount_eq
  link_lt t h_t := by
    rw [List.length_set]
    exact h.link_lt t h_t
  known j link' h_j := by
    by_cases h_eq : i = j
    · subst h_eq
      rw [eq_of_set h_j]
      exact h_link
    · rw [List.getElem?_set_ne h_eq] at h_j
      exact h.known j link' h_j

/-- **A nonce is taken** for a connection. -/
theorem Fresh.take (h : Fresh F A S) (h_remembers : F.Remembers) {i : ℕ} {own : Bool}
    {nonce : List UInt8} {link : SaltLink} (h_nonce : nonce ≠ []) (h_i : i < S.links.length)
    (h_new : (S.context.checkNonceAndSet F nonce).1 = false)
    (h_link : Known A (S.takenBy i true ++ if own = true then [nonce] else [])
      (S.takenBy i false ++ if own = false then [nonce] else []) link) :
    Fresh F A ⟨(S.context.checkNonceAndSet F nonce).2, S.links.set i link,
      S.taken ++ [⟨i, own, nonce⟩]⟩ := by
  rw [checkNonceAndSet_eq h_nonce] at h_new ⊢
  refine ⟨?_, (PingPongBloom.itemCount_checkAndSet _ nonce).trans h.itemCount_eq, ?_, ?_⟩
  · -- the filter has not seen the nonce, so it is far from its equals
    rw [List.map_append]
    exact h.knows.new h_remembers h_new
  · -- the one who takes it is a connection that there is
    intro t h_t
    rw [List.length_set]
    rcases List.mem_append.mp h_t with h_t | h_t
    · exact h.link_lt t h_t
    · rw [List.mem_singleton.mp h_t]
      exact h_i
  · -- only this connection has one more
    intro j link' h_j
    rw [takenBy_concat, takenBy_concat]
    by_cases h_eq : i = j
    · subst h_eq
      rw [eq_of_set h_j]
      simpa using h_link
    · rw [List.getElem?_set_ne h_eq] at h_j
      have h_known := h.known j link' h_j
      simpa [h_eq] using h_known

/-- A new connection. -/
theorem Fresh.connect (h : Fresh F A S) (method : CipherKind) (key : List UInt8) {S' : Salts B}
    (h_step : S.step F A p (.connect method key) = some S') : Fresh F A S' := by
  cases h_step
  -- connecting takes nothing
  refine ⟨h.knows, h.itemCount_eq, fun t h_t => ?_, fun i link h_i => ?_⟩
  · rw [List.length_append]
    exact Nat.lt_add_right _ (h.link_lt t h_t)
  · by_cases h_old : i < S.links.length
    · rw [List.getElem?_append_left h_old] at h_i
      exact h.known i link h_i
    · -- nothing has been taken for it
      have h_none (own : Bool) : S.takenBy i own = [] := by
        unfold takenBy
        rw [List.filter_eq_nil_iff.mpr, List.map_nil]
        intro t h_t h_link
        rw [decide_eq_true_iff] at h_link
        exact h_old (h_link.1 ▸ h.link_lt t h_t)
      -- it is the last one, and it draws unless nothing is encrypted
      obtain ⟨rfl, rfl⟩ : i = S.links.length ∧ link =
          if method = .none then .opened (.new A key method []) else .drawing method key := by
        have h_bound := (List.getElem?_eq_some_iff.mp h_i).1
        rw [List.length_append, List.length_singleton] at h_bound
        obtain rfl : i = S.links.length := by omega
        rw [List.getElem?_concat_length] at h_i
        exact ⟨rfl, (Option.some.inj h_i).symm⟩
      by_cases h_method : method = .none
      · rw [if_pos h_method, h_method]
        exact .plain rfl rfl (h_none true) (h_none false)
      · rw [if_neg h_method]
        exact .drawing h_method (h_none true) (h_none false)

/-- A turn of the loop in `CryptoStream::new`. -/
theorem Fresh.draw (h : Fresh F A S) (h_remembers : F.Remembers) {i : ℕ} {salt : List UInt8}
    (h_step : S.step F A p (.draw i salt) = some S') : Fresh F A S' := by
  unfold step at h_step
  dsimp only at h_step
  split at h_step
  · next method key h_i =>
    -- the connection still draws
    split at h_step
    · next h_len =>
      cases h.known i _ h_i with
      | drawing aead own_eq peer_eq =>
        have h_salt := ne_nil_of_saltLen aead h_len
        cases h_found : (S.context.checkNonceAndSet F salt).1 with
        -- the filter has seen the salt: the loop goes on
        | true =>
          rw [if_pos h_found] at h_step
          cases h_step
          exact h.found h_salt h_found
        -- it has not, and the stream is made with this salt
        | false =>
          rw [if_neg (by rw [h_found]; decide)] at h_step
          cases h_step
          refine h.take h_remembers h_salt (List.getElem?_eq_some_iff.mp h_i).1 h_found ?_
          rw [own_eq, peer_eq]
          have h_new : CryptoStream.new A key method salt =
              ⟨none, .aead (.new A method key salt), .waitIv [] method key⟩ := by
            cases method <;> first | rfl | exact absurd rfl aead
          rw [h_new]
          exact .waitIv aead rfl rfl rfl (Nat.zero_le _) rfl
    · cases h_step
  · cases h_step

/-- A poll of a connection that has been made. -/
theorem Fresh.read (h : Fresh F A S) (h_remembers : F.Remembers) {i room : ℕ}
    {es : List ReadEvent} (h_step : S.step F A p (.read i es room) = some S') : Fresh F A S' := by
  unfold step at h_step
  dsimp only at h_step
  split at h_step
  · next s h_i =>
    split at h_step
    · next x h_poll =>
      -- by what is known of the connection: only one that waits for a salt asks the filter
      have h_lt := (List.getElem?_eq_some_iff.mp h_i).1
      cases h.known i _ h_i with
      | plain enc_eq status_eq own_eq peer_eq =>
        obtain ⟨h_enc, h_status⟩ := CryptoStream.polled_established h_poll status_eq
        rw [CryptoStream.checkedNonce, status_eq] at h_step
        cases h_step
        exact h.set (.plain (h_enc.trans enc_eq) h_status own_eq peer_eq)
      | established enc_eq own_eq status_eq peer_eq =>
        obtain ⟨h_enc, h_status⟩ := CryptoStream.polled_established h_poll status_eq
        rw [CryptoStream.checkedNonce, status_eq] at h_step
        cases h_step
        exact h.set (.established (h_enc.trans enc_eq) own_eq h_status peer_eq)
      | waitIv aead enc_eq own_eq status_eq buf_le peer_eq =>
        obtain ⟨h_enc, h_cases⟩ := CryptoStream.polled_waitIv h_poll status_eq buf_le
        -- the salt is not complete
        rcases h_cases with ⟨h_none, buf', h_status, h_le⟩ |
            ⟨nonce, h_some, h_len, ⟨h_check, h_status⟩ | ⟨h_check, h_status⟩⟩
        · rw [h_none] at h_step
          cases h_step
          exact h.set (.waitIv aead (h_enc.trans enc_eq) own_eq h_status h_le peer_eq)
        · -- the filter has seen it: the poll is an error, and the salt is not taken
          rw [h_some] at h_step
          dsimp only at h_step
          rw [if_pos h_check] at h_step
          cases h_step
          have h_set := h.set (.waitIv aead (h_enc.trans enc_eq) own_eq h_status
            (Nat.le_of_eq h_len) peer_eq)
          exact h_set.found (ne_nil_of_saltLen aead h_len) h_check
        · -- the salt is that of the peer from now on
          rw [h_some] at h_step
          dsimp only at h_step
          rw [if_neg (by rw [h_check]; decide)] at h_step
          cases h_step
          refine h.take h_remembers (ne_nil_of_saltLen aead h_len) h_lt h_check ?_
          rw [own_eq, peer_eq]
          exact .established (h_enc.trans enc_eq) rfl h_status rfl
    · cases h_step
  · cases h_step

/-- **Every turn keeps the salts fresh.** -/
theorem Fresh.step (h : Fresh F A S) (h_remembers : F.Remembers)
    (h_step : S.step F A p turn = some S') : Fresh F A S' := by
  cases turn with
  | connect method key => exact h.connect method key h_step
  | draw i salt => exact h.draw h_remembers h_step
  | read i es room => exact h.read h_remembers h_step

/-- **Salts in every run**: however the connections of a client come to their filter, it is known
what has been taken for each, and what has been taken twice was taken long ago. -/
theorem fresh_of_run (h_remembers : F.Remembers) {turns : List SaltTurn}
    (h : runFrom (Salts.step F A p) (start F) turns = some S) : Fresh F A S :=
  run_induction (P := fun _ S => Fresh F A S) fresh_start
    (fun _ _ _ _ _ ih h_step => ih.step h_remembers h_step) h

end Salts

/-- **Salts are not used twice.** In whatever order the connections of a client draw their salts and
receive those of their peers, two nonces that were taken and are equal have more than 5000 others
between them. Every connection that encrypts does so under a salt that was taken for it, and it
decrypts only when one salt of its peer has been taken for it. -/
theorem salts_apart {B : Type} {F : Bloom B} (h_remembers : F.Remembers) {A : Aead} {p : Profile}
    {turns : List SaltTurn} {S : Salts B}
    (h : runFrom (Salts.step F A p) (Salts.start F) turns = some S) :
    Apart 5000 (S.taken.map Taken.nonce) ∧
      ∀ (i : ℕ) (s : CryptoStream), S.links[i]? = some (.opened s) →
        (s.enc = .none ∧ S.takenBy i true = [] ∧ S.takenBy i false = []) ∨
        ∃ method key salt, s.enc = .aead (.new A method key salt) ∧ S.takenBy i true = [salt] ∧
          (s.readStatus = .established ∧ (∃ nonce, S.takenBy i false = [nonce]) ∨
            (∃ buf, s.readStatus = .waitIv buf method key) ∧ S.takenBy i false = []) := by
  -- what is known of the connections is what the run keeps
  have h_fresh := Salts.fresh_of_run h_remembers h
  refine ⟨h_fresh.itemCount_eq ▸ h_fresh.knows.apart, fun i s h_i => ?_⟩
  cases h_fresh.known i _ h_i with
  | plain enc_eq _ own_eq peer_eq => exact .inl ⟨enc_eq, own_eq, peer_eq⟩
  | waitIv _ enc_eq own_eq status_eq _ peer_eq =>
    exact .inr ⟨_, _, _, enc_eq, own_eq, .inr ⟨⟨_, status_eq⟩, peer_eq⟩⟩
  | established enc_eq own_eq status_eq peer_eq =>
    exact .inr ⟨_, _, _, enc_eq, own_eq, .inl ⟨status_eq, _, peer_eq⟩⟩

/-- The second connection draws the salt of the first one, and has to draw again; the peer of the
first one sends that salt back, and is refused; the peer of the second one has a new salt. -/
theorem salts_apart_reflected :
    let key := List.replicate 16 (7 : UInt8)
    let salt (b : UInt8) := List.replicate 16 b
    ∃ S, runFrom (Salts.step .exact .tagged .release) (Salts.start .exact)
        [.connect .aes128Gcm key, .draw 0 (salt 1), .connect .aes128Gcm key, .draw 1 (salt 1),
          .draw 1 (salt 2), .read 0 [.data (salt 1)] 8, .read 1 [.data (salt 3)] 8] = some S ∧
      S.taken.map Taken.nonce = [salt 1, salt 2, salt 3] ∧ Apart 5000 [salt 1, salt 2, salt 3] := by
  intro key salt
  have h : ∃ S, runFrom (Salts.step .exact .tagged .release) (Salts.start .exact)
      [.connect .aes128Gcm key, .draw 0 (salt 1), .connect .aes128Gcm key, .draw 1 (salt 1),
        .draw 1 (salt 2), .read 0 [.data (salt 1)] 8, .read 1 [.data (salt 3)] 8] = some S ∧
      S.taken.map Taken.nonce = [salt 1, salt 2, salt 3] := ⟨_, rfl, rfl⟩
  obtain ⟨S, h_run, h_taken⟩ := h
  exact ⟨S, h_run, h_taken, h_taken ▸ (salts_apart Bloom.exact_remembers h_run).1⟩

end V2ray
