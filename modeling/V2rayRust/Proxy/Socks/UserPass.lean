import V2rayRust.Proxy.Socks.Socks5

/-!
# Users of the SOCKS5 inbound

The check of a user and a password in `Socks5Stream::init`. Both stand in one buffer, and
`split_at(self.read_buf.len())` splits it behind its last byte: what is looked up is the user with
the password behind it, and what it is compared with is nothing. So the answer is the one that is
asked for only if both questions have the same one (`init_userPass_iff`).
-/

namespace V2ray

/-- A byte that is there is read, and nothing but it is taken. -/
theorem readByte_cons {ε : Type} {c : Conn ε} {b : UInt8} {rest : List UInt8}
    (h_bytes : c.bytes = b :: rest) :
    ∃ c', Session.readByte c = (.ok b, c') ∧ c'.bytes = rest ∧ c'.ended = c.ended ∧
      c'.done = c.done := by
  have h_front : c.bytes = [b] ++ rest := h_bytes
  obtain ⟨c', h_read, h_rest⟩ := readExact_append (n := 1) h_front rfl
  refine ⟨c', ?_, h_rest⟩
  unfold Session.readByte
  rw [bind_run_eq, h_read]
  rfl

namespace Socks5Stream

open Socks

variable {S : Socks5Stream} {c c' : Conn SocksEvent}

/-- What a client sends that has a user and a password: its methods, then both with a byte for
their length, then the `rest`. -/
def userPassBytes (methods : List UInt8) (v : UInt8) (user password rest : List UInt8) :
    List UInt8 :=
  version :: UInt8.ofNat methods.length :: (methods ++
    (v :: UInt8.ofNat user.length :: (user ++
      (UInt8.ofNat password.length :: (password ++ rest)))))

/-- Who may pass: a client that gives nothing, and a user with the password of the table. -/
def Authorised (S : Socks5Stream) (user password : List UInt8) : Prop :=
  (user = [] ∧ password = []) ∨ S.authedUsers.lookup user = some password

instance (user password : List UInt8) : Decidable (S.Authorised user password) :=
  inferInstanceAs (Decidable (_ ∨ _))

/-- The reply to a user and a password. -/
def replyUser (S : Socks5Stream) (accepted : Bool) : Session SocksEvent Unit :=
  if accepted then S.writeAll [1, success]
  else do
    S.writeAll [1, failure]
    S.authFailure

/-- What comes after a user and a password have been accepted or not. -/
def answerUser (S : Socks5Stream) (accepted : Bool) : Session SocksEvent Address := do
  S.replyUser accepted
  S.request

/-- Who passes: what is looked up has both in it. -/
def accepts (S : Socks5Stream) (user password : List UInt8) : Bool :=
  (user ++ password = [] : Bool) || S.authedUsers.lookup (user ++ password) = some ([] : List UInt8)

/-! ### What is read -/

/-- A user and a password are read as the lengths before them say. -/
theorem readUser_eq {user password rest : List UInt8} {v : UInt8} (h_user : user.length < 256)
    (h_password : password.length < 256)
    (h_bytes : c.bytes = v :: UInt8.ofNat user.length ::
      (user ++ (UInt8.ofNat password.length :: (password ++ rest)))) :
    ∃ c', readUser c = (.ok (user ++ password), c') ∧ c'.bytes = rest ∧ c'.ended = c.ended ∧
      c'.done = c.done := by
  have h_userLen : user.length = (UInt8.ofNat user.length).toNat :=
    (UInt8.toNat_ofNat_of_lt' h_user).symm
  have h_passwordLen : password.length = (UInt8.ofNat password.length).toNat :=
    (UInt8.toNat_ofNat_of_lt' h_password).symm
  have h_front : c.bytes = [v, UInt8.ofNat user.length] ++
      (user ++ (UInt8.ofNat password.length :: (password ++ rest))) := h_bytes
  obtain ⟨c₁, h_read₁, h_bytes₁, h_ended₁, h_done₁⟩ := readExact_append (n := 2) h_front rfl
  obtain ⟨c₂, h_read₂, h_bytes₂, h_ended₂, h_done₂⟩ := readExact_append h_bytes₁ h_userLen
  obtain ⟨c₃, h_read₃, h_bytes₃, h_ended₃, h_done₃⟩ := readByte_cons h_bytes₂
  obtain ⟨c₄, h_read₄, h_bytes₄, h_ended₄, h_done₄⟩ := readExact_append h_bytes₃ h_passwordLen
  refine ⟨c₄, ?_, h_bytes₄, ?_, ?_⟩
  · refine bind_run_eq_ok.mpr ⟨_, c₁, h_read₁, ?_⟩
    refine bind_run_eq_ok.mpr ⟨_, c₂, h_read₂, ?_⟩
    refine bind_run_eq_ok.mpr ⟨_, c₃, h_read₃, ?_⟩
    exact bind_run_eq_ok.mpr ⟨_, c₄, h_read₄, rfl⟩
  · rw [h_ended₄, h_ended₃, h_ended₂, h_ended₁]
  · rw [h_done₄, h_done₃, h_done₂, h_done₁]

/-- A write that the client takes. -/
theorem writeAll_of_ok {bytes : List UInt8} (h : S.written (c.done ++ [.write bytes]) = .ok ()) :
    S.writeAll bytes c = (.ok (), { c with done := c.done ++ [.write bytes] }) := by
  unfold writeAll Session.act
  dsimp only
  rw [h]

/-- The check is about the two together. -/
theorem authenticate_userPass {methods user password rest : List UInt8} {v : UInt8}
    (h_methods : userPass ∈ methods) (h_user : user.length < 256)
    (h_password : password.length < 256)
    (h_bytes : c.bytes = v :: UInt8.ofNat user.length ::
      (user ++ (UInt8.ofNat password.length :: (password ++ rest))))
    (h_written : S.written (c.done ++ [.write [version, userPass]]) = .ok ()) :
    ∃ c', c'.bytes = rest ∧ c'.ended = c.ended ∧
      c'.done = c.done ++ [.write [version, userPass]] ∧
      (do S.authenticate methods; S.request : Session SocksEvent Address) c =
        S.answerUser (S.accepts user password) c' := by
  obtain ⟨c', h_read, h_rest, h_ended, h_done⟩ :=
    readUser_eq (c := { c with done := c.done ++ [.write [version, userPass]] }) h_user h_password
      h_bytes
  refine ⟨c', h_rest, h_ended, h_done, ?_⟩
  unfold authenticate
  rw [if_pos h_methods, bind_run_eq, bind_run_eq, writeAll_of_ok h_written]
  dsimp only
  rw [bind_run_eq, h_read]
  dsimp only
  -- the split is behind the last byte
  rw [List.splitAt_eq, List.take_length, List.drop_length]
  rw [answerUser, bind_run_eq]
  unfold replyUser accepts
  by_cases h_nil : user ++ password = []
  · rw [if_pos ⟨h_nil, rfl⟩, h_nil]
    rfl
  · rw [if_neg fun h => h_nil h.1]
    by_cases h_lookup : S.authedUsers.lookup (user ++ password) = some []
    · rw [if_pos h_lookup, h_lookup]
      simp
    · rw [if_neg h_lookup]
      simp [h_nil, h_lookup]

/-! ### Handshakes -/

theorem uniform_answerUser (accepted : Bool) : Uniform (S.answerUser accepted) := by
  refine uniform_bind ?_ fun _ => uniform_request
  unfold replyUser
  split
  · exact uniform_act _ _
  · exact uniform_bind (uniform_act _ _) fun _ => uniform_authFailure

theorem keepsDone_err {α : Type} (message : String) :
    KeepsDone (err message : Session SocksEvent α) := keepsDone_throw _

theorem keepsDone_authFailure : KeepsDone S.authFailure :=
  keepsDone_bind (keepsDone_act _ _) fun _ => keepsDone_err _

/-- The reader of requests keeps what was done before. -/
theorem keepsDone_request : KeepsDone S.request := by
  unfold request
  refine keepsDone_bind (keepsDone_readExact 3) fun buf => ?_
  split
  · exact keepsDone_err _
  refine keepsDone_bind Address.keepsDone_readFromStream fun address => ?_
  split
  · exact keepsDone_bind (keepsDone_act _ _) fun _ => keepsDone_pure _
  split
  · exact keepsDone_bind (keepsDone_act _ _) fun _ =>
      keepsDone_bind (keepsDone_act _ _) fun _ => keepsDone_pure _
  · exact keepsDone_bind (keepsDone_act _ _) fun _ => keepsDone_err _

/-- A write, and what comes after it. -/
theorem done_writeAll {α : Type} {bytes : List UInt8} {f : Unit → Session SocksEvent α}
    (h : ∀ u, KeepsDone (f u)) :
    c.done ++ [.write bytes] <+: ((S.writeAll bytes >>= f) c).2.done := by
  have h_act := done_act S.written (.write bytes) c
  rw [bind_run_eq]
  unfold writeAll
  generalize Session.act S.written (.write bytes) c = r at h_act ⊢
  obtain ⟨r, c'⟩ := r
  rw [← h_act]
  cases r with
  | ok u => exact h u c'
  | error e => exact List.prefix_rfl

/-- The code of the reply. -/
def replyCode (accepted : Bool) : UInt8 := if accepted then success else Socks.failure

theorem replyCode_inj {a b : Bool} (h : replyCode a = replyCode b) : a = b := by
  revert a b
  decide

/-- The reply is the next thing that is done. -/
theorem done_answerUser (accepted : Bool) :
    c.done ++ [.write [1, replyCode accepted]] <+:
      (S.answerUser accepted c).2.done := by
  cases accepted with
  | true => exact done_writeAll fun _ => keepsDone_request
  | false =>
    have h_assoc : S.answerUser false =
        S.writeAll [1, failure] >>= fun _ => S.authFailure >>= fun _ => S.request := by
      show (S.writeAll [1, failure] >>= fun _ => S.authFailure) >>= (fun _ => S.request) = _
      rw [bind_assoc]
    rw [h_assoc]
    exact done_writeAll fun _ => keepsDone_bind keepsDone_authFailure fun _ => keepsDone_request

/-- The two answers are told apart by what is written. -/
theorem agree_answerUser_iff {a b : Bool} (h : c.Same c') :
    Agree (S.answerUser a c) (S.answerUser b c') ↔ a = b := by
  constructor
  · intro h_agree
    have h_a := done_answerUser (S := S) (c := c) a
    have h_b := done_answerUser (S := S) (c := c') b
    rw [h_agree.same.done_eq, h.done_eq] at h_a
    have h_eq := (List.prefix_of_prefix_length_le h_a h_b (by simp)).eq_of_length (by simp)
    simp only [List.append_cancel_left_eq, List.cons.injEq, SocksEvent.write.injEq, true_and,
      and_true] at h_eq
    exact replyCode_inj h_eq
  · rintro rfl
    exact uniform_answerUser a c c' h

/-- The answer that is asked for, when the server has come to the user and the password: the reply
to the methods is all that it has done. -/
def ChecksUser (S : Socks5Stream) (user password rest : List UInt8) (c : Conn SocksEvent) : Prop :=
  Agree (S.init c) (S.answerUser (S.Authorised user password)
    ⟨[rest], c.ended, [.write [version, userPass]]⟩)

/-- **What `init` does with a user and a password**, over every table. -/
theorem agree_init_userPass {methods user password rest : List UInt8} {v : UInt8} {ended : Bool}
    (cut : Segmentation (userPassBytes methods v user password rest)) (h_cut : Unbroken cut)
    (h_methods : userPass ∈ methods) (h_len : methods.length < 256) (h_user : user.length < 256)
    (h_password : password.length < 256)
    (h_written : S.written [.write [version, userPass]] = .ok ()) :
    Agree (S.init (cut.conn ended)) (S.answerUser (S.accepts user password)
      ⟨[rest], ended, [.write [version, userPass]]⟩) := by
  have h_m : (UInt8.ofNat methods.length).toNat = methods.length := UInt8.toNat_ofNat_of_lt' h_len
  refine (agree_init h_cut).trans ?_
  -- the header and the methods are at the front
  have h_header := readHeader_of_bytes (S := S) (c := cut.conn ended) cut.flatten_eq
  rw [h_m] at h_header
  generalize h_c : ({ (cut.conn ended : Conn SocksEvent) with
    segments := dropBytes 2 (cut.conn ended : Conn SocksEvent).segments } : Conn SocksEvent) = c₁
    at h_header
  have h_bytes : c₁.bytes = methods ++ (v :: UInt8.ofNat user.length :: (user ++
      (UInt8.ofNat password.length :: (password ++ rest)))) := by
    rw [← h_c]
    refine (flatten_dropBytes 2 cut.segments).trans ?_
    exact congrArg (List.drop 2) cut.flatten_eq
  have h_listed := readListed_of_le (c := c₁) (n := methods.length)
    (by rw [h_bytes, List.length_append]; omega)
  rw [h_bytes, List.take_left] at h_listed
  have h_rest : ({ c₁ with segments := dropBytes methods.length c₁.segments } :
      Conn SocksEvent).bytes = v :: UInt8.ofNat user.length :: (user ++
        (UInt8.ofNat password.length :: (password ++ rest))) := by
    refine (flatten_dropBytes _ c₁.segments).trans ?_
    exact (congrArg (List.drop methods.length) h_bytes).trans List.drop_left
  have h_done : c₁.done = [] := by rw [← h_c]; rfl
  have h_ended : c₁.ended = ended := by rw [← h_c]; rfl
  obtain ⟨c₂, h_bytes₂, h_ended₂, h_done₂, h_run⟩ :=
    authenticate_userPass (S := S) h_methods h_user h_password h_rest
      (by show S.written (c₁.done ++ _) = _; rw [h_done]; exact h_written)
  have h_all : (do S.afterHeader (← readListed (← S.readHeader)) : Session SocksEvent Address)
      (cut.conn ended) = S.answerUser (S.accepts user password) c₂ := by
    rw [bind_run_eq, h_header]
    dsimp only
    rw [bind_run_eq, h_listed]
    exact h_run
  rw [h_all]
  refine uniform_answerUser _ _ _ ⟨?_, ?_, ?_⟩
  · rw [h_bytes₂]
    exact (List.append_nil rest).symm
  · exact h_ended₂.trans h_ended
  · rw [h_done₂]
    show c₁.done ++ _ = _
    rw [h_done, List.nil_append]

theorem accepts_iff {user password : List UInt8} :
    S.accepts user password = true ↔ (user = [] ∧ password = []) ∨
      S.authedUsers.lookup (user ++ password) = some [] := by
  unfold accepts
  simp

/-- **Users and passwords.** The answer is the right one if and only if the client gives nothing, or
the table has the password for the user just when it has the empty one for the two together. -/
theorem init_userPass_iff (S : Socks5Stream) {methods user password rest : List UInt8} {v : UInt8}
    {ended : Bool} (cut : Segmentation (userPassBytes methods v user password rest))
    (h_cut : Unbroken cut) (h_methods : userPass ∈ methods) (h_len : methods.length < 256)
    (h_user : user.length < 256) (h_password : password.length < 256)
    (h_written : S.written [.write [version, userPass]] = .ok ()) :
    S.ChecksUser user password rest (cut.conn ended) ↔
      (user = [] ∧ password = []) ∨
        (S.authedUsers.lookup user = some password ↔
          S.authedUsers.lookup (user ++ password) = some []) := by
  have h_init : Agree (S.init (cut.conn ended)) (S.answerUser (S.accepts user password)
      ⟨[rest], ended, [.write [version, userPass]]⟩) :=
    agree_init_userPass cut h_cut h_methods h_len h_user h_password h_written
  have h_checks : S.ChecksUser user password rest (cut.conn ended) ↔
      S.accepts user password = decide (S.Authorised user password) :=
    ⟨fun h => (agree_answerUser_iff (.refl _)).mp (h_init.symm.trans h),
      fun h => h_init.trans ((agree_answerUser_iff (.refl _)).mpr h)⟩
  rw [h_checks, Bool.eq_iff_iff, accepts_iff, decide_eq_true_iff]
  unfold Authorised
  tauto

/-- A user of the table is let in. -/
theorem init_userPass_sample :
    (.mk (AList.singleton [117] []) (.socketAddress (.v4 0 1080)) none (fun _ => .ok ())
      (fun _ => .error "") : Socks5Stream).ChecksUser [117] [] []
      (({ segments := [[5, 1, 2], [1, 1, 117, 0]], flatten_eq := rfl, ne_nil := by decide } :
        Segmentation (userPassBytes [2] 1 [117] [] [])).conn true) :=
  (init_userPass_iff _ _ (by rintro n rest ⟨⟩ _; exact ⟨Nat.le_refl 3, trivial⟩) (by decide)
    (by decide) (by decide) (by decide) rfl).mpr (.inr Iff.rfl)

/-- A user with a password is not, although the table has both. -/
theorem init_userPass_rejected :
    ¬ ∀ (S : Socks5Stream) (methods user password rest : List UInt8) (v : UInt8) (ended : Bool)
        (cut : Segmentation (userPassBytes methods v user password rest)),
      Unbroken cut → userPass ∈ methods → methods.length < 256 → user.length < 256 →
      password.length < 256 → S.written [.write [version, userPass]] = .ok () →
      S.ChecksUser user password rest (cut.conn ended) := by
  intro h
  have h_checks := h (.mk (AList.singleton [117] [112]) (.socketAddress (.v4 0 1080)) none
    (fun _ => .ok ()) (fun _ => .error "")) [2] [117] [112] [] 1 true
    ⟨[[5, 1, 2], [1, 1, 117, 1, 112]], rfl, by decide⟩
    (by rintro n rest ⟨⟩ _; exact ⟨Nat.le_refl 3, trivial⟩) (by decide) (by decide) (by decide)
    (by decide) rfl
  have h_done := h_checks.same.done_eq
  revert h_done
  decide

end Socks5Stream

end V2ray
