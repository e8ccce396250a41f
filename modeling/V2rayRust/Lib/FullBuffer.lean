import V2rayRust.Lib.FramedReader

/-!
# Reads into a full buffer

A poll whose destination has no room should deliver nothing, and lose nothing (`LosesNothing`). This
is about readers of payloads whose polls are rounds until one of them leaves (`RoundReader`), and
which take a full destination for the end of the payload: a round with nothing to put goes on to
what comes after the payload.

1. Nothing comes from the stream, so the poll with the full destination goes on until the reader has
   to wait or fails (`Lawful.blocked_of_zero`).
2. A reader that is blocked in this way has no round that goes on, and puts nothing
   (`Lawful.put_eq_nil`).
3. So what the reader had to put is never delivered, whereas a poll with room would have put it
   (`Lawful.not_losesNothing`).

Readers of frames (`FramedReader`) are such readers.
-/

namespace V2ray

section Polls

variable {S : Type}

/-- All that these polls deliver, whatever they answer. -/
def delivered (poll : S → List ReadEvent → ℕ → Except Fault (ReadPoll S)) :
    List ℕ → S → List ReadEvent → Except Fault (List UInt8)
  | [], _, _ => .ok []
  | room :: rooms, s, es => do
    let x ← poll s es room
    let later ← delivered poll rooms x.state x.events
    return x.put ++ later

/-- Whatever the stream below does, a poll with a full buffer delivers nothing, and later polls
deliver what they would have delivered without it. -/
def LosesNothing (poll : S → List ReadEvent → ℕ → Except Fault (ReadPoll S)) (s : S) : Prop :=
  ∀ es, (∀ x, poll s es 0 = .ok x → x.put = []) ∧
    ∀ rooms, delivered poll (0 :: rooms) s es = delivered poll rooms s es

variable {poll : S → List ReadEvent → ℕ → Except Fault (ReadPoll S)} {s : S} {x : ReadPoll S}
  {n : ℕ}

theorem delivered_singleton (h : poll s [] n = .ok x) : delivered poll [n] s [] = .ok x.put := by
  rw [delivered, h, ok_bind]
  exact congrArg Except.ok (List.append_nil _)

/-- A reader loses something if it has some bytes to put and, after a poll with a full buffer, puts
none until more comes. -/
theorem not_losesNothing_of_blocked {Blocked : S → List ReadEvent → Prop}
    (h_poll : poll s [] n = .ok x) (h_put : x.put ≠ [])
    (h_zero : ∀ y, poll s [] 0 = .ok y → y.put = [] ∧ Blocked y.state y.events)
    (h_blocked : ∀ t es y, Blocked t es → poll t es n = .ok y → y.put = []) :
    ¬ LosesNothing poll s := by
  intro h_loses
  have h_same := (h_loses []).2 [n]
  rw [delivered_singleton h_poll] at h_same
  obtain ⟨y, h_first, h_same⟩ := bind_eq_ok.mp h_same
  obtain ⟨later, h_later, h_same⟩ := bind_eq_ok.mp h_same
  obtain ⟨z, h_second, h_later⟩ := bind_eq_ok.mp h_later
  obtain ⟨h_nothing, h_y⟩ := h_zero y h_first
  have h_none := h_blocked _ _ z h_y h_second
  cases h_later
  have h_put' : y.put ++ (z.put ++ []) = x.put := Except.ok.inj h_same
  rw [h_nothing, h_none] at h_put'
  exact h_put h_put'.symm

end Polls

/-- A wait for more than there is, when nothing comes. -/
theorem readAtLeast_nil {n : ℕ} {buffer buffer' : List UInt8} {es' : List ReadEvent} {f : Filled}
    (h : readAtLeast n buffer [] = (f, buffer', es')) :
    es' = [] ∧ (f ≠ .full → f = .pending ∧ buffer' = buffer ∧ buffer.length < n) := by
  rw [readAtLeast] at h
  split at h
  · cases h
    exact ⟨rfl, fun h_full => absurd rfl h_full⟩
  · next h_lt =>
    cases h
    exact ⟨rfl, fun _ => ⟨rfl, rfl, Nat.lt_of_not_le h_lt⟩⟩

/-! ### Readers that go round -/

/-- Where a reader of payloads stands: it waits for so many bytes in its buffer, it is at a payload
to put, or it is done. -/
inductive ReaderStands
  | waits (n : ℕ)
  | puts
  | done

/-- A reader of payloads whose polls are rounds until one of them leaves. `Next room` is what a round
does that goes on. -/
structure RoundReader (S : Type) where
  poll : S → List ReadEvent → ℕ → Except Fault (ReadPoll S)
  Next : ℕ → S → List ReadEvent → S → List ReadEvent → Prop
  standing : S → ReaderStands
  buffer : S → List UInt8
  /-- what is left of the payload -/
  dataLength : S → ℕ

namespace RoundReader

variable {S : Type} (R : RoundReader S) {room : ℕ} {r r' : S} {es es' : List ReadEvent}
  {x : ReadPoll S}

/-- A payload that is to be put is in the buffer. -/
def InBuffer (r : S) : Prop := R.standing r = .puts → R.dataLength r ≤ (R.buffer r).length

/-- What a round that leaves the poll does. -/
inductive Leaves (room : ℕ) (r : S) (es : List ReadEvent) (x : ReadPoll S) : Prop
  | unfilled {n : ℕ} {f : Filled} {buffer : List UInt8} (standing_eq : R.standing r = .waits n)
      (not_full : f ≠ .full) (read_eq : readAtLeast n (R.buffer r) es = (f, buffer, x.events))
      (put_eq : x.put = [])
      (state_eq : R.standing x.state = .waits n ∧ R.buffer x.state = buffer ∨
        f ≠ .pending ∧ R.standing x.state = .done)
  | ended (put_eq : x.put = []) (state_eq : R.standing x.state = .done)
  | put (standing_eq : R.standing r = .puts) (ne_zero : min (R.dataLength r) room ≠ 0)
      (state_eq : R.standing x.state = .puts)
      (buffer_eq : R.buffer x.state = (R.buffer r).drop (min (R.dataLength r) room))
      (dataLength_eq : R.dataLength x.state = R.dataLength r - min (R.dataLength r) room)

/-- How the rounds of a reader go. -/
structure Lawful : Prop where
  /-- a poll leaves from a state that its rounds lead to -/
  leaves_of_poll : ∀ {I : S → List ReadEvent → Prop} {room : ℕ} {r : S} {es : List ReadEvent}
    {x : ReadPoll S}, (∀ r es r' es', I r es → R.Next room r es r' es' → I r' es') → I r es →
    R.poll r es room = .ok x → ∃ r' es', I r' es' ∧ R.Leaves room r' es' x
  /-- a round that goes on has read what the reader waits for, or is past its payload -/
  next_reads : ∀ {room : ℕ} {r r' : S} {es es' : List ReadEvent}, R.Next room r es r' es' →
    (∃ n buffer, R.standing r = .waits n ∧ readAtLeast n (R.buffer r) es = (.full, buffer, es')) ∨
      R.standing r = .puts ∧ es' = es
  next_inBuffer : ∀ {room : ℕ} {r r' : S} {es es' : List ReadEvent}, R.Next room r es r' es' →
    R.InBuffer r'
  /-- a poll with enough room puts what is left -/
  poll_puts : ∀ {r : S}, R.standing r = .puts → R.dataLength r ≤ (R.buffer r).length →
    0 < R.dataLength r →
    ∃ x, R.poll r [] (R.dataLength r) = .ok x ∧ x.put = (R.buffer r).take (R.dataLength r)

variable {R}

/-- A round that leaves keeps the payload in the buffer. -/
theorem InBuffer.leaves (h_r : R.InBuffer r) (h : R.Leaves room r es x) : R.InBuffer x.state := by
  intro h_puts
  cases h with
  | unfilled _ _ _ _ state_eq =>
    rcases state_eq with ⟨h_waits, -⟩ | ⟨-, h_done⟩
    · cases h_waits.symm.trans h_puts
    · cases h_done.symm.trans h_puts
  | ended _ state_eq => cases state_eq.symm.trans h_puts
  | put standing_eq ne_zero state_eq buffer_eq dataLength_eq =>
    -- what is put is taken off both
    have h_le := h_r standing_eq
    rw [buffer_eq, dataLength_eq, List.length_drop]
    omega

/-- **Every poll** keeps the payload that is to be put in the buffer. -/
theorem Lawful.inBuffer_poll (hR : R.Lawful) (h_r : R.InBuffer r)
    (h_poll : R.poll r es room = .ok x) : R.InBuffer x.state := by
  obtain ⟨r', es', h_r', h_leaves⟩ := hR.leaves_of_poll (I := fun r _ => R.InBuffer r)
    (fun _ _ _ _ _ h_next => hR.next_inBuffer h_next) h_r h_poll
  exact h_r'.leaves h_leaves

variable (R) in
/-- A reader that puts nothing until more comes. -/
inductive Blocked (r : S) : List ReadEvent → Prop
  | waits {n : ℕ} (standing_eq : R.standing r = .waits n) (lt : (R.buffer r).length < n) :
      Blocked r []
  | done {es : List ReadEvent} (standing_eq : R.standing r = .done) : Blocked r es

/-- **A poll with a full buffer**, when nothing comes, goes on until the reader is blocked. -/
theorem Lawful.blocked_of_zero (hR : R.Lawful) (h_poll : R.poll r [] 0 = .ok x) :
    x.put = [] ∧ R.Blocked x.state x.events := by
  -- no round takes anything from the stream
  have h_next (r : S) (es : List ReadEvent) (r' : S) (es' : List ReadEvent) (h_es : es = [])
      (h : R.Next 0 r es r' es') : es' = [] := by
    subst h_es
    rcases hR.next_reads h with ⟨n, buffer, -, h_read⟩ | ⟨-, rfl⟩
    · exact (readAtLeast_nil h_read).1
    · rfl
  obtain ⟨r', es', h_es, h_leaves⟩ := hR.leaves_of_poll (I := fun _ es => es = []) h_next rfl h_poll
  subst h_es
  cases h_leaves with
  | unfilled standing_eq not_full read_eq put_eq state_eq =>
    obtain ⟨h_events, h_wait⟩ := readAtLeast_nil read_eq
    obtain ⟨rfl, rfl, h_lt⟩ := h_wait not_full
    rcases state_eq with ⟨h_waits, h_buffer⟩ | ⟨h_not, -⟩
    · rw [h_events]
      exact ⟨put_eq, .waits h_waits (h_buffer.symm ▸ h_lt)⟩
    · exact absurd rfl h_not
  | ended put_eq state_eq => exact ⟨put_eq, .done state_eq⟩
  | put _ ne_zero _ _ _ => exact absurd (Nat.min_zero _) ne_zero

/-- A blocked reader has no round that goes on. -/
theorem Lawful.not_next (hR : R.Lawful) (h : R.Blocked r es) : ¬ R.Next room r es r' es' := by
  intro h_next
  rcases hR.next_reads h_next with ⟨n, buffer, h_waits, h_read⟩ | ⟨h_puts, -⟩
  · -- the round would wait for more than there is
    cases h with
    | waits standing_eq lt =>
      cases standing_eq.symm.trans h_waits
      rw [readAtLeast, if_neg (Nat.not_le_of_lt lt)] at h_read
      cases h_read
    | done standing_eq => cases standing_eq.symm.trans h_waits
  · cases h with
    | waits standing_eq _ => cases standing_eq.symm.trans h_puts
    | done standing_eq => cases standing_eq.symm.trans h_puts

/-- A blocked reader puts nothing. -/
theorem Lawful.put_eq_nil (hR : R.Lawful) (h : R.Blocked r es) (h_poll : R.poll r es room = .ok x) :
    x.put = [] := by
  obtain ⟨r', es', h', h_leaves⟩ := hR.leaves_of_poll (I := R.Blocked)
    (fun _ _ _ _ h h_next => absurd h_next (hR.not_next h)) h h_poll
  cases h_leaves with
  | unfilled _ _ _ put_eq _ => exact put_eq
  | ended put_eq _ => exact put_eq
  | put h_puts _ _ _ _ =>
    cases h' with
    | waits standing_eq _ => cases standing_eq.symm.trans h_puts
    | done standing_eq => cases standing_eq.symm.trans h_puts

/-- **A read into a full buffer loses the payload**, whenever some of one is left. -/
theorem Lawful.not_losesNothing (hR : R.Lawful) (h_r : R.InBuffer r)
    (h_puts : R.standing r = .puts) (h_pos : 0 < R.dataLength r) : ¬ LosesNothing R.poll r := by
  have h_le := h_r h_puts
  -- with enough room, what is left is put
  obtain ⟨x, h_poll, h_put⟩ := hR.poll_puts h_puts h_le h_pos
  refine not_losesNothing_of_blocked h_poll ?_ (fun y => hR.blocked_of_zero)
    (fun t es y => hR.put_eq_nil)
  rw [← List.length_pos_iff, h_put, List.length_take, Nat.min_eq_left h_le]
  exact h_pos

end RoundReader

/-! ### Readers of frames -/

namespace FramedReader

variable {σ : Type} {p : Profile} {fmt : FrameFormat σ} {r : FramedReader σ} {es : List ReadEvent}
  {room : ℕ} {x : ReadPoll (FramedReader σ)}

/-- The readers that polls lead to, whatever was in the buffer at first. -/
inductive Reads (p : Profile) (fmt : FrameFormat σ) : FramedReader σ → Prop
  | start {r : FramedReader σ} (stage_eq : r.stage = .head) : Reads p fmt r
  | poll {r : FramedReader σ} {es : List ReadEvent} {room : ℕ} {x : ReadPoll (FramedReader σ)}
      (before : Reads p fmt r) (poll_eq : pollRead p fmt r es room = .ok x) : Reads p fmt x.state

/-- Some of a payload has been opened and not delivered. -/
def Undelivered (r : FramedReader σ) : Prop := r.stage = .put ∧ 0 < r.dataLength

/-- A reader of frames, as it goes round. -/
def rounder (p : Profile) (fmt : FrameFormat σ) : RoundReader (FramedReader σ) where
  poll := pollRead p fmt
  Next room r es := Next p fmt r es room
  standing r := match r.stage with
    | .head => .waits fmt.headLen
    | .body => .waits r.dataLength
    | .put => .puts
    | .done => .done
  buffer := FramedReader.buffer
  dataLength := FramedReader.dataLength

/-- A wait that does not end with a full buffer. -/
theorem leaves_unfilled {n : ℕ} {f : Filled} {buffer : List UInt8} {es' : List ReadEvent}
    (h_standing : (rounder p fmt).standing r = .waits n) (h_full : f ≠ .full)
    (h_read : readAtLeast n r.buffer es = (f, buffer, es')) :
    (rounder p fmt).Leaves room r es (unfilled { r with buffer } es' f) := by
  cases f with
  | full => exact absurd rfl h_full
  | pending => exact .unfilled h_standing h_full h_read rfl (.inl ⟨h_standing, rfl⟩)
  | ended | err => exact .unfilled h_standing h_full h_read rfl (.inr ⟨Filled.noConfusion, rfl⟩)

/-- The ways to leave of a reader of frames are those of a reader that goes round. -/
theorem leaves_of_leave (h : Leave p fmt r es room x) : (rounder p fmt).Leaves room r es x := by
  obtain ⟨cipher, buffer₀, dataLength, stage⟩ := r
  cases h with
  | head_unfilled stage_eq not_full read_eq =>
    cases stage_eq
    exact leaves_unfilled rfl not_full read_eq
  | body_unfilled stage_eq not_full read_eq =>
    cases stage_eq
    exact leaves_unfilled rfl not_full read_eq
  | failed => exact .ended rfl rfl
  | put stage_eq ne_zero le =>
    cases stage_eq
    exact .put rfl ne_zero rfl rfl rfl
  | done stage_eq =>
    cases stage_eq
    exact .ended rfl rfl

/-- A reader of frames goes round as the rules ask. -/
theorem rounder_lawful (p : Profile) (h_sound : fmt.Sound) : (rounder p fmt).Lawful where
  leaves_of_poll h_next h h_poll := by
    obtain ⟨r', es', h', h_leave⟩ := leave_of_pollRead h_next h h_poll
    exact ⟨r', es', h', leaves_of_leave h_leave⟩
  next_reads {_ r _ _ _} h := by
    obtain ⟨cipher, buffer₀, dataLength, stage⟩ := r
    cases h with
    | head stage_eq read_eq _ =>
      cases stage_eq
      exact .inl ⟨_, _, rfl, read_eq⟩
    | body stage_eq read_eq _ _ =>
      cases stage_eq
      exact .inl ⟨_, _, rfl, read_eq⟩
    | put stage_eq _ _ =>
      cases stage_eq
      exact .inr ⟨rfl, rfl⟩
  next_inBuffer h := by
    cases h with
    | head => exact fun h_puts => (by cases h_puts)
    | @body buffer es' cipher opened dataLength stage_eq read_eq body_eq sub_eq =>
      -- a payload is what is left of a body without its tag
      intro _
      have h_le := (readAtLeast_cases read_eq).2.2 rfl
      have h_tag := h_sound.tagLen_le body_eq
      have h_opened := h_sound.length_opened body_eq
      rw [List.length_take, Nat.min_eq_left h_le] at h_tag h_opened
      rw [Profile.sub_of_le h_tag] at sub_eq
      cases sub_eq
      show _ ≤ (opened ++ _).length
      rw [List.length_append, h_opened]
      exact Nat.le_add_right_of_le (Nat.sub_le _ _)
    | put => exact fun h_puts => (by cases h_puts)
  poll_puts {r} h_puts h_le h_pos := by
    obtain ⟨cipher, buffer₀, dataLength, stage⟩ := r
    cases stage with
    | head | body | done => cases h_puts
    | put =>
      have h_le : dataLength ≤ buffer₀.length := h_le
      have h_pos : 0 < dataLength := h_pos
      have h_round : round p fmt ⟨cipher, buffer₀, dataLength, .put⟩ [] dataLength = .ok (.leave
          ⟨⟨cipher, buffer₀.drop dataLength, 0, .put⟩, [], .ready (.ok ()),
            buffer₀.take dataLength⟩) := by
        unfold round
        dsimp only
        rw [Nat.min_self, if_pos (Nat.ne_of_gt h_pos), splitTo_of_le h_le, ok_bind, Nat.sub_self]
        rfl
      exact ⟨_, pollRead_leave h_round, rfl⟩

theorem Reads.inBuffer (h_sound : fmt.Sound) (h : Reads p fmt r) : (rounder p fmt).InBuffer r := by
  induction h with
  | @start r stage_eq =>
    obtain ⟨cipher, buffer₀, dataLength, stage⟩ := r
    cases stage_eq
    exact fun h_puts => (by cases h_puts)
  | poll before poll_eq ih => exact (rounder_lawful p h_sound).inBuffer_poll ih poll_eq

/-- **A read into a full buffer loses the payload** of a reader of frames, whenever some of one is
left. -/
theorem not_losesNothing (h_sound : fmt.Sound) (h : Reads p fmt r) (h_undelivered : r.Undelivered) :
    ¬ LosesNothing (pollRead p fmt) r := by
  have h_inBuffer := h.inBuffer h_sound
  obtain ⟨cipher, buffer₀, dataLength, stage⟩ := r
  obtain ⟨h_stage, h_pos⟩ := h_undelivered
  cases h_stage
  exact (rounder_lawful p h_sound).not_losesNothing h_inBuffer rfl h_pos

end FramedReader

end V2ray
