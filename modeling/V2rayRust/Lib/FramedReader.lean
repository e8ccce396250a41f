import Mathlib.Data.List.Basic
import Mathlib.Tactic.Common
import V2rayRust.Lib.ReadRun
import V2rayRust.Lib.Trace

/-!
# Readers of framed streams

A frame is a head of fixed length, which tells how long the body is, and the body, which is
a payload and a tag. A reader waits for the head, waits for the body, hands out the payload
as destinations come, and drops the tag; it may be suspended at each of these stages, and goes
on where it was. What the head says and how the body is opened, in place, is a
`FrameFormat`.

`Frames` is the format of a whole stream. A reader of such a stream delivers its payloads
(`delivers_pollRead`), whatever the segmentation and the destinations. Over any other stream
it delivers only what its format vouches for (`kept_pollRead`), and it stops with a fault
exactly if the format does on some frame (`returns_iff`).
-/

namespace V2ray

/-- How the frames of a stream are read; `σ` is what is kept between them. -/
structure FrameFormat (σ : Type) where
  headLen : ℕ
  tagLen : ℕ
  /-- the length of the body that a head announces -/
  head : σ → List UInt8 → Except Stop (σ × ℕ)
  /-- what is in the place of a body once it is opened -/
  body : σ → List UInt8 → Except Stop (σ × List UInt8)

/-- Where a reader is suspended. -/
inductive Stage
  | head
  | body
  | put
  | done
  deriving DecidableEq, Repr

structure FramedReader (σ : Type) where
  cipher : σ
  buffer : List UInt8
  dataLength : ℕ
  stage : Stage
  deriving DecidableEq

/-- `buffer.split_to(n)`, `buffer[0..n]` and `buffer.advance(n)`: a panic beyond the end. -/
def splitTo (n : ℕ) (buffer : List UInt8) : Except Fault (List UInt8 × List UInt8) :=
  if n ≤ buffer.length then .ok (buffer.take n, buffer.drop n) else .error .outOfBounds

@[simp] theorem splitTo_of_le {n : ℕ} {buffer : List UInt8} (h : n ≤ buffer.length) :
    splitTo n buffer = .ok (buffer.take n, buffer.drop n) :=
  if_pos h

namespace FramedReader

variable {σ : Type}

/-- A round of the reader's loop: it goes on, or it leaves the poll. -/
inductive Round (σ : Type)
  | next (r : FramedReader σ) (es : List ReadEvent)
  | leave (x : ReadPoll (FramedReader σ))

/-- A wait for bytes that does not end with a full buffer leaves the poll: it stays where it
is while it is pending, and reports the end of the stream as a read of nothing. -/
def unfilled (r : FramedReader σ) (es : List ReadEvent) : Filled → ReadPoll (FramedReader σ)
  | .full | .pending => ⟨r, es, .pending, []⟩
  | .ended => ⟨{ r with stage := .done }, es, .ready (.ok ()), []⟩
  | .err message => ⟨{ r with stage := .done }, es, .ready (.error message), []⟩

/-- The end of a poll with an error. The reader is done after it, so that what it reports is what it
has reported up to its first error. A reader whose state is moved by its waits alone, and not by a
return between them, is still at the step that has failed: its next poll repeats this step and
reports an error again. -/
def fail (r : FramedReader σ) (es : List ReadEvent) : Stop → Except Fault (Round σ)
  | .err message => .ok (.leave ⟨{ r with stage := .done }, es, .ready (.error message), []⟩)
  | .fault f => .error f

/-- The loop of a reader, stage by stage. `room` is what is free in the destination. -/
def round (p : Profile) (fmt : FrameFormat σ) (r : FramedReader σ) (es : List ReadEvent)
    (room : ℕ) : Except Fault (Round σ) :=
  match r.stage with
  | .head =>
    match readAtLeast fmt.headLen r.buffer es with
    | (.full, buffer, es) =>
      match fmt.head r.cipher (buffer.take fmt.headLen) with
      | .ok (cipher, dataLength) =>
        .ok (.next ⟨cipher, buffer.drop fmt.headLen, dataLength, .body⟩ es)
      | .error e => fail { r with buffer } es e
    | (f, buffer, es) => .ok (.leave (unfilled { r with buffer } es f))
  | .body =>
    match readAtLeast r.dataLength r.buffer es with
    | (.full, buffer, es) =>
      match fmt.body r.cipher (buffer.take r.dataLength) with
      | .ok (cipher, opened) => do
        let dataLength ← p.sub 64 r.dataLength fmt.tagLen
        return .next ⟨cipher, opened ++ buffer.drop r.dataLength, dataLength, .put⟩ es
      | .error e => fail { r with buffer } es e
    | (f, buffer, es) => .ok (.leave (unfilled { r with buffer } es f))
  | .put =>
    let minimalDataToPut := min r.dataLength room
    if minimalDataToPut ≠ 0 then do
      let (put, buffer) ← splitTo minimalDataToPut r.buffer
      return .leave ⟨{ r with buffer, dataLength := r.dataLength - minimalDataToPut }, es,
        .ready (.ok ()), put⟩
    else do
      let (_, buffer) ← splitTo fmt.tagLen r.buffer
      return .next { r with buffer, stage := .head } es
  | .done => .ok (.leave ⟨r, es, .ready (.error "unexpected end of file"), []⟩)

/-- Rounds until one leaves the poll. -/
def pollLoop (p : Profile) (fmt : FrameFormat σ) (room : ℕ) :
    ℕ → FramedReader σ → List ReadEvent → Except Fault (ReadPoll (FramedReader σ))
  | 0, _, _ => .error .diverge
  | n + 1, r, es => do
    match ← round p fmt r es room with
    | .next r es => pollLoop p fmt room n r es
    | .leave x => return x

/-- A bound on the rounds of a poll: a frame takes three of them and at least one byte. -/
def rounds (r : FramedReader σ) (es : List ReadEvent) : ℕ :=
  3 * (r.buffer.length + (bytesOf es).length) +
    match r.stage with
    | .head => 0
    | .body => 2
    | .put => 1
    | .done => 0

/-- `poll_read_decrypted` -/
def pollRead (p : Profile) (fmt : FrameFormat σ) (r : FramedReader σ) (es : List ReadEvent)
    (room : ℕ) : Except Fault (ReadPoll (FramedReader σ)) :=
  pollLoop p fmt room (rounds r es + 1) r es

end FramedReader

/-- What every format satisfies: a head has a byte, a body that opens has a tag, and is opened
in place. -/
structure FrameFormat.Sound {σ : Type} (fmt : FrameFormat σ) : Prop where
  headLen_pos : 0 < fmt.headLen
  tagLen_le : ∀ {c c' : σ} {b opened : List UInt8},
    fmt.body c b = .ok (c', opened) → fmt.tagLen ≤ b.length
  length_opened : ∀ {c c' : σ} {b opened : List UInt8},
    fmt.body c b = .ok (c', opened) → opened.length = b.length

namespace FramedReader

variable {σ : Type} {p : Profile} {fmt : FrameFormat σ} {r r' : FramedReader σ}
  {es es' : List ReadEvent} {room : ℕ}

/-! ### The rounds -/

/-- What a round that goes on does. -/
inductive Next (p : Profile) (fmt : FrameFormat σ) (r : FramedReader σ) (es : List ReadEvent)
    (room : ℕ) : FramedReader σ → List ReadEvent → Prop
  | head {buffer : List UInt8} {es' : List ReadEvent} {cipher : σ} {dataLength : ℕ}
      (stage_eq : r.stage = .head)
      (read_eq : readAtLeast fmt.headLen r.buffer es = (.full, buffer, es'))
      (head_eq : fmt.head r.cipher (buffer.take fmt.headLen) = .ok (cipher, dataLength)) :
      Next p fmt r es room ⟨cipher, buffer.drop fmt.headLen, dataLength, .body⟩ es'
  | body {buffer : List UInt8} {es' : List ReadEvent} {cipher : σ} {opened : List UInt8}
      {dataLength : ℕ} (stage_eq : r.stage = .body)
      (read_eq : readAtLeast r.dataLength r.buffer es = (.full, buffer, es'))
      (body_eq : fmt.body r.cipher (buffer.take r.dataLength) = .ok (cipher, opened))
      (sub_eq : p.sub 64 r.dataLength fmt.tagLen = .ok dataLength) :
      Next p fmt r es room ⟨cipher, opened ++ buffer.drop r.dataLength, dataLength, .put⟩ es'
  | put (stage_eq : r.stage = .put) (nothing : min r.dataLength room = 0)
      (le : fmt.tagLen ≤ r.buffer.length) :
      Next p fmt r es room { r with buffer := r.buffer.drop fmt.tagLen, stage := .head } es

theorem fail_ne_next {s : Stop} : fail r es s ≠ .ok (.next r' es') := by
  cases s <;> intro h <;> cases h

/-- A round that goes on is one of `Next`. -/
theorem next_of_round (h : round p fmt r es room = .ok (.next r' es')) :
    Next p fmt r es room r' es' := by
  unfold round at h
  cases h_stage : r.stage with
  | head =>
    rw [h_stage] at h
    rcases h_read : readAtLeast fmt.headLen r.buffer es with ⟨f, buffer, es₁⟩
    rw [h_read] at h
    cases f with
    | full =>
      dsimp only at h
      cases h_head : fmt.head r.cipher (buffer.take fmt.headLen) with
      | ok x => rw [h_head] at h; cases h; exact .head h_stage h_read h_head
      | error s => rw [h_head] at h; exact absurd h fail_ne_next
    | pending | ended | err => cases h
  | body =>
    rw [h_stage] at h
    rcases h_read : readAtLeast r.dataLength r.buffer es with ⟨f, buffer, es₁⟩
    rw [h_read] at h
    cases f with
    | full =>
      dsimp only at h
      cases h_body : fmt.body r.cipher (buffer.take r.dataLength) with
      | ok x =>
        rw [h_body] at h
        obtain ⟨dataLength, h_sub, h⟩ := bind_eq_ok.mp h
        cases h
        exact .body h_stage h_read h_body h_sub
      | error s => rw [h_body] at h; exact absurd h fail_ne_next
    | pending | ended | err => cases h
  | put =>
    rw [h_stage] at h
    -- a put that hands out bytes leaves the poll, so this one has none to hand out
    dsimp only at h
    split at h
    · obtain ⟨_, _, h⟩ := bind_eq_ok.mp h
      cases h
    · next h_zero =>
      obtain ⟨x, h_split, h⟩ := bind_eq_ok.mp h
      unfold splitTo at h_split
      split at h_split
      · next h_le => cases h_split; cases h; exact .put h_stage (not_not.mp h_zero) h_le
      · cases h_split
  | done => rw [h_stage] at h; cases h

/-- **A round that goes on takes something off the measure.** -/
theorem Next.rounds_lt (h_sound : fmt.Sound) (h : Next p fmt r es room r' es') :
    rounds r' es' < rounds r es := by
  cases h with
  | head stage_eq read_eq head_eq =>
    obtain ⟨h_bytes, _, h_le⟩ := readAtLeast_cases read_eq
    have h_len := congrArg List.length h_bytes
    rw [List.length_append, List.length_append] at h_len
    have h_le := h_le rfl
    -- a head takes at least one byte off what is in the buffer and to come
    have h_pos := h_sound.headLen_pos
    simp only [rounds, stage_eq, List.length_drop]
    omega
  | body stage_eq read_eq body_eq sub_eq =>
    obtain ⟨h_bytes, _, h_le⟩ := readAtLeast_cases read_eq
    have h_len := congrArg List.length h_bytes
    rw [List.length_append, List.length_append] at h_len
    have h_le := h_le rfl
    -- what is opened is no longer than what was sealed
    have h_opened := h_sound.length_opened body_eq
    rw [List.length_take] at h_opened
    simp only [rounds, stage_eq, List.length_drop, List.length_append]
    omega
  | put stage_eq nothing le =>
    simp only [rounds, stage_eq, List.length_drop]
    omega

/-- What a round that leaves the poll does. -/
inductive Leave (p : Profile) (fmt : FrameFormat σ) (r : FramedReader σ) (es : List ReadEvent)
    (room : ℕ) : ReadPoll (FramedReader σ) → Prop
  | head_unfilled {f : Filled} {buffer : List UInt8} {es' : List ReadEvent}
      (stage_eq : r.stage = .head) (not_full : f ≠ .full)
      (read_eq : readAtLeast fmt.headLen r.buffer es = (f, buffer, es')) :
      Leave p fmt r es room (unfilled { r with buffer } es' f)
  | body_unfilled {f : Filled} {buffer : List UInt8} {es' : List ReadEvent}
      (stage_eq : r.stage = .body) (not_full : f ≠ .full)
      (read_eq : readAtLeast r.dataLength r.buffer es = (f, buffer, es')) :
      Leave p fmt r es room (unfilled { r with buffer } es' f)
  | failed {buffer : List UInt8} {es' : List ReadEvent} {message : String} :
      Leave p fmt r es room
        ⟨{ r with buffer, stage := .done }, es', .ready (.error message), []⟩
  | put (stage_eq : r.stage = .put) (ne_zero : min r.dataLength room ≠ 0)
      (le : min r.dataLength room ≤ r.buffer.length) :
      Leave p fmt r es room
        ⟨{ r with buffer := r.buffer.drop (min r.dataLength room),
                  dataLength := r.dataLength - min r.dataLength room }, es,
          .ready (.ok ()), r.buffer.take (min r.dataLength room)⟩
  | done (stage_eq : r.stage = .done) :
      Leave p fmt r es room ⟨r, es, .ready (.error "unexpected end of file"), []⟩

theorem leave_of_fail {buffer : List UInt8} {s : Stop} {x : ReadPoll (FramedReader σ)}
    (h : fail { r with buffer } es' s = .ok (.leave x)) : Leave p fmt r es room x := by
  cases s with
  | err message => cases h; exact .failed
  | fault f => cases h

/-- A round that leaves is one of `Leave`. -/
theorem leave_of_round {x : ReadPoll (FramedReader σ)}
    (h : round p fmt r es room = .ok (.leave x)) : Leave p fmt r es room x := by
  obtain ⟨cipher, buffer₀, dataLength, stage⟩ := r
  cases stage with
  | head =>
    unfold round at h
    dsimp only at h
    rcases h_read : readAtLeast fmt.headLen buffer₀ es with ⟨f, buffer, es₁⟩
    rw [h_read] at h
    cases f with
    | full =>
      dsimp only at h
      cases h_head : fmt.head cipher (buffer.take fmt.headLen) with
      | ok x => rw [h_head] at h; cases h
      | error s => rw [h_head] at h; exact leave_of_fail h
    | pending | ended | err =>
      cases h
      exact .head_unfilled rfl (fun hf => (by cases hf)) h_read
  | body =>
    unfold round at h
    dsimp only at h
    rcases h_read : readAtLeast dataLength buffer₀ es with ⟨f, buffer, es₁⟩
    rw [h_read] at h
    cases f with
    | full =>
      dsimp only at h
      cases h_body : fmt.body cipher (buffer.take dataLength) with
      | ok x =>
        rw [h_body] at h
        obtain ⟨_, _, h⟩ := bind_eq_ok.mp h
        cases h
      | error s => rw [h_body] at h; exact leave_of_fail h
    | pending | ended | err =>
      cases h
      exact .body_unfilled rfl (fun hf => (by cases hf)) h_read
  | put =>
    unfold round at h
    dsimp only at h
    -- nothing to put, or no room: the round goes on
    split at h
    · next h_ne =>
      obtain ⟨y, h_split, h⟩ := bind_eq_ok.mp h
      unfold splitTo at h_split
      split at h_split
      · next h_le =>
        cases h_split
        cases h
        exact .put rfl h_ne h_le
      · cases h_split
    · obtain ⟨_, _, h⟩ := bind_eq_ok.mp h
      cases h
  | done =>
    cases h
    exact .done rfl

/-! ### Whole polls -/

/-- **A poll goes round until it leaves.** If each round from a state with `I` goes on to
one with `I` or leaves with `Q`, then the poll returns with `Q`. -/
theorem pollRead_of_rounds (h_sound : fmt.Sound) {I : FramedReader σ → List ReadEvent → Prop}
    {Q : ReadPoll (FramedReader σ) → Prop}
    (h_round : ∀ r es, I r es →
      (∃ r' es', round p fmt r es room = .ok (.next r' es') ∧ I r' es') ∨
        ∃ x, round p fmt r es room = .ok (.leave x) ∧ Q x) (h : I r es) :
    ∃ x, pollRead p fmt r es room = .ok x ∧ Q x := by
  have h_loop : ∀ n r es, I r es → rounds r es < n →
      ∃ x, pollLoop p fmt room n r es = .ok x ∧ Q x := by
    intro n
    -- on the fuel, which is more than the rounds that are left
    induction n with
    | zero => exact fun _ _ _ h_lt => absurd h_lt (Nat.not_lt_zero _)
    | succ n ih =>
      intro r es h h_lt
      rcases h_round r es h with ⟨r', es', h_z, h'⟩ | ⟨x, h_z, h_q⟩
      · have h_fewer := (next_of_round h_z).rounds_lt h_sound
        rw [pollLoop, h_z, ok_bind]
        exact ih r' es' h' (by omega)
      · rw [pollLoop, h_z, ok_bind]
        exact ⟨x, rfl, h_q⟩
  exact h_loop _ r es h (Nat.lt_succ_self _)

/-- A poll that returned left from a state that its rounds lead to. -/
theorem leave_of_pollRead {I : FramedReader σ → List ReadEvent → Prop}
    (h_next : ∀ r es r' es', I r es → Next p fmt r es room r' es' → I r' es') (h : I r es)
    {x : ReadPoll (FramedReader σ)} (h_poll : pollRead p fmt r es room = .ok x) :
    ∃ r' es', I r' es' ∧ Leave p fmt r' es' room x := by
  have h_loop : ∀ n r es, I r es → pollLoop p fmt room n r es = .ok x →
      ∃ r' es', I r' es' ∧ Leave p fmt r' es' room x := by
    intro n
    -- on the fuel; what returned has left in one of the rounds
    induction n with
    | zero => exact fun _ _ _ h_loop => (by cases h_loop)
    | succ n ih =>
      intro r es h h_loop
      rw [pollLoop] at h_loop
      obtain ⟨z, h_z, h_loop⟩ := bind_eq_ok.mp h_loop
      cases z with
      | leave y =>
        cases h_loop
        exact ⟨r, es, h, leave_of_round h_z⟩
      | next r' es' => exact ih r' es' (h_next r es r' es' h (next_of_round h_z)) h_loop
  exact h_loop _ r es h h_poll

/-- More fuel than there are rounds changes nothing. -/
theorem pollLoop_succ (h_sound : fmt.Sound) {n : ℕ} (h : rounds r es < n) :
    pollLoop p fmt room (n + 1) r es = pollLoop p fmt room n r es := by
  induction n generalizing r es with
  | zero => exact absurd h (Nat.not_lt_zero _)
  | succ n ih =>
    rw [pollLoop, pollLoop]
    cases h_z : round p fmt r es room with
    | error f => rfl
    | ok z =>
      cases z with
      | leave x => rfl
      | next r' es' =>
        have h_fewer := (next_of_round h_z).rounds_lt h_sound
        exact ih (by omega)

/-- Fuel does not bear on a poll, once there is enough of it for its rounds. -/
theorem pollLoop_eq_pollRead (h_sound : fmt.Sound) {n : ℕ} (h : rounds r es < n) :
    pollLoop p fmt room n r es = pollRead p fmt r es room := by
  obtain ⟨k, rfl⟩ := Nat.exists_eq_add_of_lt h
  induction k with
  | zero => rfl
  | succ k ih =>
    have h_lt : rounds r es < rounds r es + k + 1 := by omega
    exact (pollLoop_succ h_sound h_lt).trans (ih h_lt)

/-- A poll goes on as from the state after its first round. -/
theorem pollRead_next (h_sound : fmt.Sound) (h : round p fmt r es room = .ok (.next r' es')) :
    pollRead p fmt r es room = pollRead p fmt r' es' room := by
  have h_fewer := (next_of_round h).rounds_lt h_sound
  show pollLoop p fmt room (rounds r es + 1) r es = _
  rw [pollLoop, h, ok_bind]
  exact pollLoop_eq_pollRead h_sound h_fewer

theorem pollRead_leave {x : ReadPoll (FramedReader σ)}
    (h : round p fmt r es room = .ok (.leave x)) :
    pollRead p fmt r es room = .ok x := by
  show pollLoop p fmt room (rounds r es + 1) r es = _
  rw [pollLoop, h, ok_bind]
  rfl

theorem pollRead_error {f : Fault} (h : round p fmt r es room = .error f) :
    pollRead p fmt r es room = .error f := by
  show pollLoop p fmt room (rounds r es + 1) r es = _
  rw [pollLoop, h, error_bind]

end FramedReader

/-! ### Streams of frames -/

section Frames

variable {σ : Type}

/-- `wire` is a sequence of frames, for a reader that starts with `c`, and `plain` what
they carry. -/
inductive Frames (fmt : FrameFormat σ) : σ → List UInt8 → List UInt8 → Prop
  | nil (c : σ) : Frames fmt c [] []
  | cons {c c₁ c₂ : σ} {h b payload tag wire plain : List UInt8}
      (head_len : h.length = fmt.headLen) (head_eq : fmt.head c h = .ok (c₁, b.length))
      (body_eq : fmt.body c₁ b = .ok (c₂, payload ++ tag)) (tag_len : tag.length = fmt.tagLen)
      (rest : Frames fmt c₂ wire plain) : Frames fmt c (h ++ (b ++ wire)) (payload ++ plain)

/-- With the cipher `state k`, a format opens frames of the `k`-th payload only. -/
structure FrameFormat.Vouches (fmt : FrameFormat σ) (state : ℕ → σ)
    (payloads : List (List UInt8)) : Prop where
  opened : ∀ {k len : ℕ} {c c' : σ} {h b o : List UInt8}, k ≤ payloads.length →
    fmt.head (state k) h = .ok (c, len) → b.length = len → fmt.body c b = .ok (c', o) →
    c' = state (k + 1) ∧
      ∃ payload, payloads[k]? = some payload ∧ payload.length + fmt.tagLen = len ∧ payload <+: o

variable {p : Profile} {fmt : FrameFormat σ}

/-- A stream of frames that is shorter than a head is empty. -/
theorem Frames.eq_nil_of_lt {c : σ} {wire plain : List UInt8} (h : Frames fmt c wire plain)
    (h_lt : wire.length < fmt.headLen) : wire = [] ∧ plain = [] := by
  cases h with
  | nil => exact ⟨rfl, rfl⟩
  | cons head_len head_eq body_eq tag_len rest =>
    rw [List.length_append, head_len] at h_lt
    exact absurd h_lt (Nat.not_lt_of_le (Nat.le_add_right _ _))

namespace FramedReader

/-- `wire` is what a reader has before it, in its buffer or on the way, and `rest` the payloads
that it has not delivered. -/
inductive Ahead (fmt : FrameFormat σ) (r : FramedReader σ) : List UInt8 → List UInt8 → Prop
  | head {wire rest : List UInt8} (stage_eq : r.stage = .head)
      (frames : Frames fmt r.cipher wire rest) : Ahead fmt r wire rest
  | body {c : σ} {b payload tag wire rest : List UInt8} (stage_eq : r.stage = .body)
      (b_len : b.length = r.dataLength) (body_eq : fmt.body r.cipher b = .ok (c, payload ++ tag))
      (tag_len : tag.length = fmt.tagLen) (frames : Frames fmt c wire rest) :
      Ahead fmt r (b ++ wire) (payload ++ rest)
  | put {payload tag wire rest : List UInt8} (stage_eq : r.stage = .put)
      (payload_len : payload.length = r.dataLength) (tag_len : tag.length = fmt.tagLen)
      (in_buffer : r.dataLength + fmt.tagLen ≤ r.buffer.length)
      (frames : Frames fmt r.cipher wire rest) :
      Ahead fmt r (payload ++ (tag ++ wire)) (payload ++ rest)

/-- The reader is in the middle of a stream that works. -/
def AheadOf (fmt : FrameFormat σ) (r : FramedReader σ) (es : List ReadEvent)
    (rest : List UInt8) : Prop :=
  Clean es ∧ Ahead fmt r (r.buffer ++ bytesOf es) rest

/-- A list that starts with `xs` and with `ys`, the shorter first. -/
theorem take_drop_of_append_eq {α : Type} {xs ys zs ws : List α} (h : xs ++ ys = zs ++ ws)
    (h_le : zs.length ≤ xs.length) : xs.take zs.length = zs ∧ xs.drop zs.length ++ ys = ws := by
  have h_take := congrArg (List.take zs.length) h
  have h_drop := congrArg (List.drop zs.length) h
  rw [List.take_append_of_le_length h_le, List.take_left] at h_take
  rw [List.drop_append_of_le_length h_le, List.drop_left] at h_drop
  exact ⟨h_take, h_drop⟩

section Ahead

variable {r : FramedReader σ} {es : List ReadEvent} {rest : List UInt8} {room : ℕ}

/-- A round of a reader in the middle of a stream that works: it goes on, or it leaves with a
delivery. -/
inductive AheadRound (fmt : FrameFormat σ) (es : List ReadEvent) (rest : List UInt8) :
    Round σ → Prop
  | next {r' : FramedReader σ} {es' : List ReadEvent} (ahead : AheadOf fmt r' es' rest)
      (pendings_le : pendings es' ≤ pendings es) : AheadRound fmt es rest (.next r' es')
  | leave {x : ReadPoll (FramedReader σ)} (delivery : Delivery (AheadOf fmt) es rest x) :
      AheadRound fmt es rest (.leave x)

/-- A round at the head of a frame. -/
theorem aheadRound_head (h_sound : fmt.Sound) (h_clean : Clean es) (h_stage : r.stage = .head)
    {wire : List UInt8} (h_wire : wire = r.buffer ++ bytesOf es)
    (h_frames : Frames fmt r.cipher wire rest) :
    ∃ z, round p fmt r es room = .ok z ∧ AheadRound fmt es rest z := by
  obtain ⟨cipher, buffer₀, dataLength, stage⟩ := r
  cases h_stage
  unfold round
  dsimp only
  rcases h_read : readAtLeast fmt.headLen buffer₀ es with ⟨f, buffer, es'⟩
  obtain ⟨h_bytes, -, -⟩ := readAtLeast_cases h_read
  have h_wire : wire = buffer ++ bytesOf es' := h_wire.trans h_bytes.symm
  cases readClean h_clean h_read with
  | full clean le pendings_le =>
    cases h_frames with
    | nil =>
      -- there is a byte in the buffer, so there is a frame
      have h_nil : buffer = [] := (List.append_eq_nil_iff.mp h_wire.symm).1
      rw [h_nil] at le
      exact absurd le (Nat.not_le_of_lt h_sound.headLen_pos)
    | @cons _ c₁ c₂ h b payload tag wire' plain head_len head_eq body_eq tag_len rest =>
      obtain ⟨h_take, h_drop⟩ := take_drop_of_append_eq h_wire.symm (head_len.symm ▸ le)
      rw [head_len] at h_take h_drop
      dsimp only
      rw [h_take, head_eq]
      refine ⟨_, rfl, .next ⟨clean, ?_⟩ pendings_le⟩
      show Ahead fmt _ (buffer.drop fmt.headLen ++ bytesOf es') _
      rw [h_drop]
      exact .body rfl rfl body_eq tag_len rest
  | pending clean lt spent =>
    refine ⟨_, rfl, .leave (.pending rfl ⟨clean, ?_⟩ (Or.inl spent))⟩
    show Ahead fmt _ (buffer ++ bytesOf es') _
    rw [← h_wire]
    exact .head rfl h_frames
  | waiting lt =>
    rw [bytesOf_nil, List.append_nil] at h_wire
    have h_nil := h_frames.eq_nil_of_lt (h_wire ▸ lt)
    refine ⟨_, rfl, .leave (.pending rfl ⟨.nil, ?_⟩ (Or.inr h_nil.2))⟩
    show Ahead fmt _ (buffer ++ []) _
    rw [List.append_nil, ← h_wire]
    exact .head rfl h_frames
  | ended clean lt no_bytes =>
    rw [no_bytes, List.append_nil] at h_wire
    have h_nil := h_frames.eq_nil_of_lt (h_wire ▸ lt)
    exact ⟨_, rfl, .leave (.ended rfl rfl h_nil.2)⟩

/-- A round at the body of a frame. -/
theorem aheadRound_body (h_sound : fmt.Sound) (h_clean : Clean es) (h_stage : r.stage = .body)
    {c : σ} {b payload tag wire plain : List UInt8} (h_len : b.length = r.dataLength)
    (h_wire : b ++ wire = r.buffer ++ bytesOf es)
    (h_body : fmt.body r.cipher b = .ok (c, payload ++ tag)) (h_tag : tag.length = fmt.tagLen)
    (h_frames : Frames fmt c wire plain) :
    ∃ z, round p fmt r es room = .ok z ∧ AheadRound fmt es (payload ++ plain) z := by
  obtain ⟨cipher, buffer₀, dataLength, stage⟩ := r
  cases h_stage
  unfold round
  dsimp only at h_len ⊢
  rcases h_read : readAtLeast dataLength buffer₀ es with ⟨f, buffer, es'⟩
  obtain ⟨h_bytes, -, -⟩ := readAtLeast_cases h_read
  have h_wire : b ++ wire = buffer ++ bytesOf es' := h_wire.trans h_bytes.symm
  -- the body cannot be cut off: it is in the buffer or on its way
  have h_short : bytesOf es' = [] → ¬ buffer.length < dataLength := by
    intro h_nil h_lt
    have h_eq := congrArg List.length h_wire
    rw [h_nil, List.length_append, List.append_nil] at h_eq
    omega
  cases readClean h_clean h_read with
  | full clean le pendings_le =>
    obtain ⟨h_take, h_drop⟩ := take_drop_of_append_eq h_wire.symm (h_len.symm ▸ le)
    rw [h_len] at h_take h_drop
    have h_opened := h_sound.length_opened h_body
    rw [List.length_append, h_tag, h_len] at h_opened
    have h_sub : p.sub 64 dataLength fmt.tagLen = .ok payload.length := by
      rw [Profile.sub_of_le (by omega)]
      exact congrArg Except.ok (by omega)
    dsimp only
    rw [h_take, h_body]
    dsimp only
    rw [h_sub, ok_bind]
    refine ⟨_, rfl, .next ⟨clean, ?_⟩ pendings_le⟩
    have h_after : (payload ++ tag) ++ buffer.drop dataLength ++ bytesOf es' =
        payload ++ (tag ++ wire) := by
      rw [List.append_assoc (payload ++ tag), h_drop, List.append_assoc]
    show Ahead fmt _ ((payload ++ tag) ++ buffer.drop dataLength ++ bytesOf es') _
    rw [h_after]
    refine Ahead.put (r := ⟨c, (payload ++ tag) ++ buffer.drop dataLength, payload.length, .put⟩)
      rfl rfl h_tag ?_ h_frames
    show payload.length + fmt.tagLen ≤ ((payload ++ tag) ++ buffer.drop dataLength).length
    rw [List.length_append, List.length_append, h_tag]
    exact Nat.le_add_right _ _
  | pending clean lt spent =>
    refine ⟨_, rfl, .leave (.pending rfl ⟨clean, ?_⟩ (Or.inl spent))⟩
    show Ahead fmt _ (buffer ++ bytesOf es') _
    rw [← h_wire]
    exact .body rfl h_len h_body h_tag h_frames
  | waiting lt => exact absurd lt (h_short rfl)
  | ended clean lt no_bytes => exact absurd lt (h_short no_bytes)

/-- A round that puts what it has opened. -/
theorem aheadRound_put (h_clean : Clean es) (h_stage : r.stage = .put) (h_room : 0 < room)
    {payload tag wire plain : List UInt8} (h_len : payload.length = r.dataLength)
    (h_wire : payload ++ (tag ++ wire) = r.buffer ++ bytesOf es)
    (h_tag : tag.length = fmt.tagLen) (h_in : r.dataLength + fmt.tagLen ≤ r.buffer.length)
    (h_frames : Frames fmt r.cipher wire plain) :
    ∃ z, round p fmt r es room = .ok z ∧ AheadRound fmt es (payload ++ plain) z := by
  obtain ⟨cipher, buffer, dataLength, stage⟩ := r
  cases h_stage
  unfold round
  dsimp only at h_len h_wire h_in h_frames ⊢
  by_cases h_zero : min dataLength room = 0
  · -- the payload is out
    obtain rfl : payload = [] := List.length_eq_zero_iff.mp (by omega)
    rw [if_neg (not_not.mpr h_zero), splitTo_of_le (by omega), ok_bind]
    obtain ⟨-, h_drop⟩ := take_drop_of_append_eq (h_wire.symm.trans (List.nil_append _))
      (by omega)
    rw [h_tag] at h_drop
    refine ⟨_, rfl, .next ⟨h_clean, ?_⟩ (Nat.le_refl _)⟩
    show Ahead fmt _ (buffer.drop fmt.tagLen ++ bytesOf es) plain
    rw [h_drop]
    exact .head rfl h_frames
  · rw [if_pos h_zero, splitTo_of_le (by omega), ok_bind]
    have h_le : min dataLength room ≤ payload.length := h_len ▸ Nat.min_le_left _ _
    -- the payload, cut where the destination ends
    have h_cut : payload.take (min dataLength room) ++
        (payload.drop (min dataLength room) ++ (tag ++ wire)) = buffer ++ bytesOf es := by
      rw [← List.append_assoc, List.take_append_drop]
      exact h_wire
    have h_take_len : (payload.take (min dataLength room)).length = min dataLength room := by
      rw [List.length_take]
      exact Nat.min_eq_left h_le
    obtain ⟨h_take, h_drop⟩ := take_drop_of_append_eq h_cut.symm (by omega)
    rw [h_take_len] at h_take h_drop
    have h_rest : payload ++ plain = payload.take (min dataLength room) ++
        (payload.drop (min dataLength room) ++ plain) := by
      rw [← List.append_assoc, List.take_append_drop]
    refine ⟨_, rfl, .leave (.put rfl ?_ (h_take.symm ▸ h_rest) ⟨h_clean, ?_⟩ (Nat.le_refl _))⟩
    · show buffer.take (min dataLength room) ≠ []
      rw [h_take]
      intro h_nil
      rw [h_nil] at h_take_len
      exact h_zero h_take_len.symm
    · show Ahead fmt _ (buffer.drop (min dataLength room) ++ bytesOf es) _
      rw [h_drop]
      refine .put rfl ?_ h_tag ?_ h_frames
      · show (payload.drop (min dataLength room)).length = dataLength - min dataLength room
        rw [List.length_drop, h_len]
      · show dataLength - min dataLength room + fmt.tagLen ≤
          (buffer.drop (min dataLength room)).length
        rw [List.length_drop]
        omega

/-- One round of a reader in the middle of a stream that works, by its stage. -/
theorem aheadRound (h_sound : fmt.Sound) (h : AheadOf fmt r es rest) (h_room : 0 < room) :
    ∃ z, round p fmt r es room = .ok z ∧ AheadRound fmt es rest z := by
  obtain ⟨h_clean, h_ahead⟩ := h
  generalize h_wire : r.buffer ++ bytesOf es = wire at h_ahead
  cases h_ahead with
  | head stage_eq frames => exact aheadRound_head h_sound h_clean stage_eq h_wire.symm frames
  | body stage_eq b_len body_eq tag_len frames =>
    exact aheadRound_body h_sound h_clean stage_eq b_len h_wire.symm body_eq tag_len frames
  | put stage_eq payload_len tag_len in_buffer frames =>
    exact aheadRound_put h_clean stage_eq h_room payload_len h_wire.symm tag_len in_buffer frames

/-- **A reader of frames delivers their payloads.** -/
theorem delivers_pollRead (h_sound : fmt.Sound) :
    Delivers (pollRead p fmt) (AheadOf fmt) := by
  intro r es rest room h_ahead h_room
  refine pollRead_of_rounds h_sound
    (I := fun r' es' => AheadOf fmt r' es' rest ∧ pendings es' ≤ pendings es) ?_
    ⟨h_ahead, Nat.le_refl _⟩
  rintro r' es' ⟨h_ahead', h_le⟩
  obtain ⟨z, h_z, h_case⟩ := aheadRound (p := p) h_sound h_ahead' h_room
  cases h_case with
  | next ahead pendings_le => exact Or.inl ⟨_, _, h_z, ahead, Nat.le_trans pendings_le h_le⟩
  | leave delivery => exact Or.inr ⟨_, h_z, delivery.mono h_le⟩

end Ahead

/-! ### Streams of any bytes -/

section Held

variable {r r' : FramedReader σ} {es es' : List ReadEvent} {room : ℕ}
  {state : ℕ → σ} {payloads : List (List UInt8)} {out : List UInt8}

/-- What a reader holds that has delivered `out` of the payloads. -/
inductive Held (fmt : FrameFormat σ) (state : ℕ → σ) (payloads : List (List UInt8))
    (r : FramedReader σ) (out : List UInt8) : Prop
  | head {k : ℕ} (le : k ≤ payloads.length) (stage_eq : r.stage = .head)
      (cipher_eq : r.cipher = state k)
      (out_eq : out = (payloads.take k).flatten)
  | body {k : ℕ} {h : List UInt8} (le : k ≤ payloads.length) (stage_eq : r.stage = .body)
      (head_eq : fmt.head (state k) h = .ok (r.cipher, r.dataLength))
      (out_eq : out = (payloads.take k).flatten)
  | put {k : ℕ} (le : k + 1 ≤ payloads.length) (stage_eq : r.stage = .put)
      (cipher_eq : r.cipher = state (k + 1))
      (out_eq : out ++ r.buffer.take r.dataLength = (payloads.take (k + 1)).flatten)
  | done (stage_eq : r.stage = .done) (pre : out <+: payloads.flatten)

theorem flatten_take_prefix {α : Type} (xss : List (List α)) (k : ℕ) :
    (xss.take k).flatten <+: xss.flatten := by
  have h_split := congrArg List.flatten (List.take_append_drop k xss)
  rw [List.flatten_append] at h_split
  exact ⟨_, h_split⟩

/-- Nothing but payloads has been delivered. -/
theorem Held.isPrefix (h : Held fmt state payloads r out) :
    out <+: payloads.flatten := by
  cases h with
  | head le stage_eq cipher_eq out_eq => exact out_eq ▸ flatten_take_prefix _ _
  | body le stage_eq head_eq out_eq => exact out_eq ▸ flatten_take_prefix _ _
  | put le stage_eq cipher_eq out_eq =>
    exact (List.prefix_append _ _).trans (out_eq ▸ flatten_take_prefix _ _)
  | done stage_eq pre => exact pre

/-- A round keeps what is held. -/
theorem Held.next (h_vouches : fmt.Vouches state payloads) (h_room : 0 < room)
    (h : Held fmt state payloads r out) (h_next : Next p fmt r es room r' es') :
    Held fmt state payloads r' out := by
  cases h_next with
  | @head buffer _ cipher dataLength stage_eq read_eq head_eq =>
    cases h with
    | head le _ cipher_eq out_eq => exact .body le rfl (cipher_eq ▸ head_eq) out_eq
    | body _ stage_eq' => exact absurd (stage_eq.symm.trans stage_eq') (by decide)
    | put _ stage_eq' => exact absurd (stage_eq.symm.trans stage_eq') (by decide)
    | done stage_eq' => exact absurd (stage_eq.symm.trans stage_eq') (by decide)
  | @body buffer _ cipher opened dataLength stage_eq read_eq body_eq sub_eq =>
    cases h with
    | head _ stage_eq' => exact absurd (stage_eq.symm.trans stage_eq') (by decide)
    | @body k h le _ head_eq out_eq =>
      have h_len : (buffer.take r.dataLength).length = r.dataLength :=
        List.length_take_of_le ((readAtLeast_cases read_eq).2.2 rfl)
      obtain ⟨h_cipher, payload, h_payload, h_payload_len, tail, h_opened⟩ :=
        h_vouches.opened le head_eq h_len body_eq
      -- what is left of the data length is the payload
      rw [Profile.sub_of_le (by omega)] at sub_eq
      have h_dataLength : payload.length = dataLength := by
        cases sub_eq
        omega
      have h_lt : k < payloads.length := (List.getElem?_eq_some_iff.mp h_payload).1
      refine .put h_lt rfl h_cipher ?_
      show out ++ (opened ++ buffer.drop r.dataLength).take dataLength = _
      rw [← h_opened, ← h_dataLength, List.append_assoc, List.take_left, out_eq, List.take_add_one,
        List.flatten_append, h_payload]
      simp
    | put _ stage_eq' => exact absurd (stage_eq.symm.trans stage_eq') (by decide)
    | done stage_eq' => exact absurd (stage_eq.symm.trans stage_eq') (by decide)
  | put stage_eq nothing le =>
    cases h with
    | head _ stage_eq' => exact absurd (stage_eq.symm.trans stage_eq') (by decide)
    | body _ stage_eq' => exact absurd (stage_eq.symm.trans stage_eq') (by decide)
    | put le _ cipher_eq out_eq =>
      have h_zero : r.dataLength = 0 := by omega
      rw [h_zero, List.take_zero, List.append_nil] at out_eq
      exact .head le rfl cipher_eq out_eq
    | done stage_eq' => exact absurd (stage_eq.symm.trans stage_eq') (by decide)

/-- A wait that does not fill the buffer keeps what is held, or fails. -/
theorem Held.unfilled {f : Filled} (h_full : f ≠ .full) {buffer : List UInt8}
    (h_pre : out <+: payloads.flatten) (h : Held fmt state payloads { r with buffer } out) :
    Kept (fun r _ => Held fmt state payloads r) out
      (FramedReader.unfilled { r with buffer } es f) := by
  cases f with
  | full => exact absurd rfl h_full
  | pending => exact Or.inr ⟨(List.append_nil out).symm ▸ h, fun _ => rfl⟩
  | ended => exact Or.inr ⟨.done rfl ((List.append_nil out).symm ▸ h_pre), fun _ => rfl⟩
  | err message => exact Or.inl ⟨⟨message, rfl⟩, rfl⟩

/-- **A reader of any bytes delivers only what its format vouches for.** -/
theorem kept_pollRead (h_vouches : fmt.Vouches state payloads) (h_room : 0 < room)
    (h_held : Held fmt state payloads r out) {x : ReadPoll (FramedReader σ)}
    (h_poll : pollRead p fmt r es room = .ok x) :
    Kept (fun r _ => Held fmt state payloads r) out x := by
  obtain ⟨r', es', h_held, h_leave⟩ :=
    leave_of_pollRead (I := fun r _ => Held fmt state payloads r out)
      (fun _ _ _ _ h h_next => h.next h_vouches h_room h_next) h_held h_poll
  -- only the stage of the last round matters, and the others contradict it
  have h_pre := h_held.isPrefix
  cases h_leave with
  | @head_unfilled f buffer es₁ stage_eq not_full read_eq =>
    refine Held.unfilled not_full h_pre ?_
    cases h_held with
    | head le _ cipher_eq out_eq => exact .head le stage_eq cipher_eq out_eq
    | body _ stage_eq' => exact absurd (stage_eq.symm.trans stage_eq') (by decide)
    | put _ stage_eq' => exact absurd (stage_eq.symm.trans stage_eq') (by decide)
    | done stage_eq' => exact absurd (stage_eq.symm.trans stage_eq') (by decide)
  | body_unfilled stage_eq not_full read_eq =>
    refine Held.unfilled not_full h_pre ?_
    cases h_held with
    | head _ stage_eq' => exact absurd (stage_eq.symm.trans stage_eq') (by decide)
    | body le _ head_eq out_eq => exact .body le stage_eq head_eq out_eq
    | put _ stage_eq' => exact absurd (stage_eq.symm.trans stage_eq') (by decide)
    | done stage_eq' => exact absurd (stage_eq.symm.trans stage_eq') (by decide)
  | failed => exact Or.inl ⟨⟨_, rfl⟩, rfl⟩
  | put stage_eq ne_zero le =>
    refine Or.inr ⟨?_, fun h_pending => (by cases h_pending)⟩
    cases h_held with
    | head _ stage_eq' => exact absurd (stage_eq.symm.trans stage_eq') (by decide)
    | body _ stage_eq' => exact absurd (stage_eq.symm.trans stage_eq') (by decide)
    | @put k le _ cipher_eq out_eq =>
      refine .put le stage_eq cipher_eq ?_
      -- what is handed out comes off the front of what is held
      have h_split : min r'.dataLength room + (r'.dataLength - min r'.dataLength room) =
          r'.dataLength := Nat.add_sub_cancel' (Nat.min_le_left _ _)
      rw [← h_split, List.take_add, ← List.append_assoc] at out_eq
      exact out_eq
    | done stage_eq' => exact absurd (stage_eq.symm.trans stage_eq') (by decide)
  | done stage_eq => exact Or.inl ⟨⟨_, rfl⟩, rfl⟩

end Held

/-! ### Faults -/

section Faults

variable {r : FramedReader σ} {es es' : List ReadEvent} {room : ℕ}

/-- A frame of `wire` stops the format with a fault, after frames that it opens. -/
inductive Faults (fmt : FrameFormat σ) : σ → List UInt8 → Prop
  | head {c : σ} {h wire : List UInt8} {f : Fault} (head_len : h.length = fmt.headLen)
      (head_eq : fmt.head c h = .error (.fault f)) : Faults fmt c (h ++ wire)
  | body {c c₁ : σ} {h b wire : List UInt8} {f : Fault} (head_len : h.length = fmt.headLen)
      (head_eq : fmt.head c h = .ok (c₁, b.length))
      (body_eq : fmt.body c₁ b = .error (.fault f)) : Faults fmt c (h ++ (b ++ wire))
  | next {c c₁ c₂ : σ} {h b opened wire : List UInt8} (head_len : h.length = fmt.headLen)
      (head_eq : fmt.head c h = .ok (c₁, b.length)) (body_eq : fmt.body c₁ b = .ok (c₂, opened))
      (rest : Faults fmt c₂ wire) : Faults fmt c (h ++ (b ++ wire))

/-- What is before a reader holds no fault. -/
inductive Quiet (fmt : FrameFormat σ) (r : FramedReader σ) (es : List ReadEvent) : Prop
  | head (stage_eq : r.stage = .head) (quiet : ¬ Faults fmt r.cipher (r.buffer ++ bytesOf es))
  | body {c : σ} {h : List UInt8} (stage_eq : r.stage = .body) (head_len : h.length = fmt.headLen)
      (head_eq : fmt.head c h = .ok (r.cipher, r.dataLength))
      (quiet : ¬ Faults fmt c (h ++ (r.buffer ++ bytesOf es)))
  | put {wire : List UInt8} (stage_eq : r.stage = .put)
      (in_buffer : r.dataLength + fmt.tagLen ≤ r.buffer.length)
      (wire_eq : (r.buffer ++ bytesOf es).drop (r.dataLength + fmt.tagLen) = wire)
      (quiet : ¬ Faults fmt r.cipher wire)
  | done (stage_eq : r.stage = .done)

/-- A round that goes on or leaves without a fault. -/
inductive QuietRound (fmt : FrameFormat σ) : Round σ → Prop
  | next {r' : FramedReader σ} {es' : List ReadEvent} (quiet : Quiet fmt r' es') :
      QuietRound fmt (.next r' es')
  | leave {x : ReadPoll (FramedReader σ)} (quiet : Quiet fmt x.state x.events) :
      QuietRound fmt (.leave x)

theorem quietRound_unfilled {f : Filled} (h_full : f ≠ .full) (h : Quiet fmt r es) :
    QuietRound fmt (.leave (unfilled r es f)) := by
  cases f with
  | full => exact absurd rfl h_full
  | pending => exact .leave h
  | ended => exact .leave (.done rfl)
  | err message => exact .leave (.done rfl)

theorem quietRound_fail {s : Stop} (h : ∀ f, s ≠ .fault f) :
    ∃ z, fail r es s = .ok z ∧ QuietRound fmt z := by
  cases s with
  | err message => exact ⟨_, rfl, .leave (.done rfl)⟩
  | fault f => exact absurd rfl (h f)

/-- Where the bytes hold no fault, those that a round leaves hold none. -/
theorem quietRound (h_sound : fmt.Sound) (h_room : 0 < room) (h : Quiet fmt r es) :
    ∃ z, round p fmt r es room = .ok z ∧ QuietRound fmt z := by
  obtain ⟨cipher, buffer₀, dataLength, stage⟩ := r
  cases h with
  | head stage_eq quiet =>
    cases stage_eq
    unfold round
    dsimp only at quiet ⊢
    rcases h_read : readAtLeast fmt.headLen buffer₀ es with ⟨f, buffer, es'⟩
    obtain ⟨h_bytes, -, h_full⟩ := readAtLeast_cases h_read
    rw [← h_bytes] at quiet
    cases f with
    | pending | ended | err =>
      exact ⟨_, rfl, quietRound_unfilled (fun hf => (by cases hf)) (.head rfl quiet)⟩
    | full =>
      have h_len : (buffer.take fmt.headLen).length = fmt.headLen :=
        List.length_take_of_le (h_full rfl)
      have h_wire : buffer ++ bytesOf es' =
          buffer.take fmt.headLen ++ (buffer.drop fmt.headLen ++ bytesOf es') := by
        rw [← List.append_assoc, List.take_append_drop]
      rw [h_wire] at quiet
      dsimp only
      cases h_head : fmt.head cipher (buffer.take fmt.headLen) with
      | error s =>
        refine quietRound_fail fun f h_fault => quiet ?_
        exact .head h_len (h_fault ▸ h_head)
      | ok x => exact ⟨_, rfl, .next (.body rfl h_len h_head quiet)⟩
  | @body c h stage_eq head_len head_eq quiet =>
    cases stage_eq
    unfold round
    dsimp only at head_eq quiet ⊢
    rcases h_read : readAtLeast dataLength buffer₀ es with ⟨f, buffer, es'⟩
    obtain ⟨h_bytes, -, h_full⟩ := readAtLeast_cases h_read
    rw [← h_bytes] at quiet
    cases f with
    | pending | ended | err =>
      exact ⟨_, rfl, quietRound_unfilled (fun hf => (by cases hf))
        (.body rfl head_len head_eq quiet)⟩
    | full =>
      have h_len : (buffer.take dataLength).length = dataLength :=
        List.length_take_of_le (h_full rfl)
      have h_wire : buffer ++ bytesOf es' =
          buffer.take dataLength ++ (buffer.drop dataLength ++ bytesOf es') := by
        rw [← List.append_assoc, List.take_append_drop]
      rw [h_wire] at quiet
      rw [← h_len] at head_eq
      dsimp only
      cases h_body : fmt.body cipher (buffer.take dataLength) with
      | error s =>
        refine quietRound_fail fun f h_fault => quiet ?_
        exact .body head_len head_eq (h_fault ▸ h_body)
      | ok x =>
        obtain ⟨c₂, opened⟩ := x
        have h_opened := h_sound.length_opened h_body
        have h_tag := h_sound.tagLen_le h_body
        rw [h_len] at h_opened h_tag
        dsimp only
        rw [Profile.sub_of_le h_tag, ok_bind]
        refine ⟨_, rfl, .next (.put rfl ?_ rfl fun h_faults => quiet ?_)⟩
        · show dataLength - fmt.tagLen + fmt.tagLen ≤ (opened ++ buffer.drop dataLength).length
          rw [List.length_append, h_opened]
          omega
        · refine .next head_len head_eq h_body ?_
          -- the frame is dropped from what was opened in its place
          have h_drop : (opened ++ buffer.drop dataLength ++ bytesOf es').drop
              (dataLength - fmt.tagLen + fmt.tagLen) = buffer.drop dataLength ++ bytesOf es' := by
            rw [Nat.sub_add_cancel h_tag, ← h_opened, List.append_assoc, List.drop_left]
          exact h_drop ▸ h_faults
  | @put wire stage_eq in_buffer wire_eq quiet =>
    cases stage_eq
    unfold round
    dsimp only at in_buffer wire_eq quiet ⊢
    by_cases h_zero : min dataLength room = 0
    · rw [if_neg (not_not.mpr h_zero), splitTo_of_le (by omega), ok_bind]
      refine ⟨_, rfl, .next (.head rfl ?_)⟩
      have h_dataLength : dataLength = 0 := by omega
      rw [h_dataLength, Nat.zero_add, List.drop_append_of_le_length (by omega)] at wire_eq
      exact wire_eq ▸ quiet
    · rw [if_pos h_zero, splitTo_of_le (by omega), ok_bind]
      refine ⟨_, rfl, .leave (.put rfl ?_ ?_ quiet)⟩
      · show dataLength - min dataLength room + fmt.tagLen ≤
          (buffer₀.drop (min dataLength room)).length
        rw [List.length_drop]
        omega
      · show (buffer₀.drop (min dataLength room) ++ bytesOf es).drop
          (dataLength - min dataLength room + fmt.tagLen) = wire
        rw [← List.drop_append_of_le_length (by omega), List.drop_drop, ← wire_eq]
        congr 1
        omega
  | done stage_eq =>
    cases stage_eq
    exact ⟨_, rfl, .leave (.done rfl)⟩

/-- **A reader with no fault before it returns from every poll.** -/
theorem quiet_pollRead (h_sound : fmt.Sound) (h_room : 0 < room) (h : Quiet fmt r es) :
    ∃ x, pollRead p fmt r es room = .ok x ∧ Quiet fmt x.state x.events := by
  refine pollRead_of_rounds h_sound (I := Quiet fmt) (fun r' es' h' => ?_) h
  obtain ⟨z, h_z, h_case⟩ := quietRound (p := p) h_sound h_room h'
  cases h_case with
  | next quiet => exact Or.inl ⟨_, _, h_z, quiet⟩
  | leave quiet => exact Or.inr ⟨_, h_z, quiet⟩

/-- A frame in the buffer is opened at once. -/
theorem pollRead_frame (h_sound : fmt.Sound) {c c₁ c₂ : σ} {h b opened wire : List UInt8}
    (head_len : h.length = fmt.headLen) (head_eq : fmt.head c h = .ok (c₁, b.length))
    (body_eq : fmt.body c₁ b = .ok (c₂, opened)) (n : ℕ) :
    pollRead p fmt ⟨c, h ++ (b ++ wire), n, .head⟩ es room =
      pollRead p fmt ⟨c₂, opened ++ wire, b.length - fmt.tagLen, .put⟩ es room := by
  -- both reads find their bytes in the buffer, so the schedule is not touched
  have h_head : round p fmt ⟨c, h ++ (b ++ wire), n, .head⟩ es room =
      .ok (.next ⟨c₁, b ++ wire, b.length, .body⟩ es) := by
    unfold round
    dsimp only
    rw [readAtLeast_of_le (by rw [List.length_append, head_len]; exact Nat.le_add_right _ _)]
    dsimp only
    rw [← head_len, List.take_left, List.drop_left, head_eq]
  have h_body : round p fmt ⟨c₁, b ++ wire, b.length, .body⟩ es room =
      .ok (.next ⟨c₂, opened ++ wire, b.length - fmt.tagLen, .put⟩ es) := by
    unfold round
    dsimp only
    rw [readAtLeast_of_le (by rw [List.length_append]; exact Nat.le_add_right _ _)]
    dsimp only
    rw [List.take_left, List.drop_left, body_eq]
    dsimp only
    rw [Profile.sub_of_le (h_sound.tagLen_le body_eq)]
    rfl
  rw [pollRead_next h_sound h_head, pollRead_next h_sound h_body]

/-- The tag of a payload that is out is dropped at once. -/
theorem pollRead_tag (h_sound : fmt.Sound) {c : σ} {tag wire : List UInt8}
    (tag_len : tag.length = fmt.tagLen) :
    pollRead p fmt ⟨c, tag ++ wire, 0, .put⟩ es room =
      pollRead p fmt ⟨c, wire, 0, .head⟩ es room := by
  refine pollRead_next h_sound ?_
  unfold round
  dsimp only
  rw [Nat.zero_min, if_neg (not_not.mpr rfl),
    splitTo_of_le (by rw [List.length_append, tag_len]; exact Nat.le_add_right _ _), ok_bind,
    ← tag_len, List.drop_left]
  rfl

/-- **A reader with a fault before it has a poll that stops with it.** -/
theorem readRun_error_of_faults (h_sound : fmt.Sound) {c : σ} {wire : List UInt8}
    (h : Faults fmt c wire) (n : ℕ) :
    ∃ room rooms, (∀ r ∈ room :: rooms, 0 < r) ∧
      ∃ f, readRun (pollRead p fmt) (room :: rooms) ⟨c, wire, n, .head⟩ [] = .error f := by
  -- on the frames before the fault; the wire is in the buffer from the start
  induction h generalizing n with
  | @head c h wire f head_len head_eq =>
    refine ⟨1, [], by simp, f, ?_⟩
    rw [readRun, pollRead_error, error_bind]
    unfold round
    dsimp only
    rw [readAtLeast_of_le (by rw [List.length_append, head_len]; exact Nat.le_add_right _ _)]
    dsimp only
    rw [← head_len, List.take_left, head_eq]
    rfl
  | @body c c₁ h b wire f head_len head_eq body_eq =>
    refine ⟨1, [], by simp, f, ?_⟩
    have h_head : round p fmt ⟨c, h ++ (b ++ wire), n, .head⟩ [] 1 =
        .ok (.next ⟨c₁, b ++ wire, b.length, .body⟩ []) := by
      unfold round
      dsimp only
      rw [readAtLeast_of_le (by rw [List.length_append, head_len]; exact Nat.le_add_right _ _)]
      dsimp only
      rw [← head_len, List.take_left, List.drop_left, head_eq]
    rw [readRun, pollRead_next h_sound h_head, pollRead_error, error_bind]
    unfold round
    dsimp only
    rw [readAtLeast_of_le (by rw [List.length_append]; exact Nat.le_add_right _ _)]
    dsimp only
    rw [List.take_left, body_eq]
    rfl
  | @next c c₁ c₂ h b opened wire head_len head_eq body_eq rest ih =>
    -- the frame opens, so a poll gets as far as its payload
    obtain ⟨room, rooms, h_rooms, f, h_error⟩ := ih 0
    have h_tag := h_sound.tagLen_le body_eq
    have h_opened := h_sound.length_opened body_eq
    obtain ⟨payload, tag, rfl, h_payload⟩ : ∃ payload tag, opened = payload ++ tag ∧
        payload.length = b.length - fmt.tagLen :=
      ⟨_, _, (List.take_append_drop (b.length - fmt.tagLen) opened).symm,
        List.length_take_of_le (by omega)⟩
    have h_tag_len : tag.length = fmt.tagLen := by
      rw [List.length_append] at h_opened
      omega
    have h_frame (room : ℕ) : pollRead p fmt ⟨c, h ++ (b ++ wire), n, .head⟩ [] room =
        pollRead p fmt ⟨c₂, payload ++ tag ++ wire, b.length - fmt.tagLen, .put⟩ [] room :=
      pollRead_frame h_sound head_len head_eq body_eq n
    rw [List.append_assoc, ← h_payload] at h_frame
    by_cases h_nil : payload = []
    · -- the poll goes on to the next frame
      refine ⟨room, rooms, h_rooms, f, ?_⟩
      rw [h_nil, List.nil_append, List.length_nil] at h_frame
      rw [readRun_congr rooms ((h_frame room).trans (pollRead_tag h_sound h_tag_len)), h_error]
    · have h_pos : 0 < payload.length := List.length_pos_iff.mpr h_nil
      -- one poll for the payload, and the ones that run into the fault
      refine ⟨payload.length, room :: rooms, ?_, f, ?_⟩
      · intro r hr
        rcases List.mem_cons.mp hr with rfl | hr
        · exact h_pos
        · exact h_rooms r hr
      have h_put : pollRead p fmt ⟨c₂, payload ++ (tag ++ wire), payload.length, .put⟩ []
          payload.length = .ok ⟨⟨c₂, tag ++ wire, 0, .put⟩, [], .ready (.ok ()), payload⟩ := by
        refine pollRead_leave ?_
        unfold round
        dsimp only
        rw [Nat.min_self, if_pos (Nat.ne_of_gt h_pos),
          splitTo_of_le (by rw [List.length_append]; exact Nat.le_add_right _ _), ok_bind,
          List.take_left, List.drop_left, Nat.sub_self]
        rfl
      rw [readRun, h_frame, h_put, ok_bind]
      dsimp only
      rw [if_neg h_nil, readRun_congr rooms (pollRead_tag h_sound h_tag_len), h_error]
      rfl

/-- A first read that brings everything. -/
theorem pollRead_data (h_sound : fmt.Sound) {c : σ} {wire : List UInt8} {n : ℕ}
    (h : fmt.headLen ≤ wire.length) :
    pollRead p fmt ⟨c, [], n, .head⟩ [.data wire] room =
      pollRead p fmt ⟨c, wire, n, .head⟩ [] room := by
  have h_ne : wire ≠ [] := List.length_pos_iff.mp (Nat.lt_of_lt_of_le h_sound.headLen_pos h)
  have h_read : readAtLeast fmt.headLen [] [.data wire] = (.full, wire, []) := by
    rw [readAtLeast_of_lt h_sound.headLen_pos]
    dsimp only
    rw [if_neg h_ne, List.nil_append, readAtLeast_of_le h]
  -- the first round is the same, and so are all that follow it
  have h_round : round p fmt ⟨c, [], n, .head⟩ [.data wire] room =
      round p fmt ⟨c, wire, n, .head⟩ [] room := by
    unfold round
    dsimp only
    rw [h_read, readAtLeast_of_le h]
  cases h_z : round p fmt ⟨c, wire, n, .head⟩ [] room with
  | error f => rw [pollRead_error h_z, pollRead_error (h_round.trans h_z)]
  | ok z =>
    cases z with
    | next r' es' =>
      rw [pollRead_next h_sound h_z, pollRead_next h_sound (h_round.trans h_z)]
    | leave x => rw [pollRead_leave h_z, pollRead_leave (h_round.trans h_z)]

theorem Faults.headLen_le {c : σ} {wire : List UInt8} (h : Faults fmt c wire) :
    fmt.headLen ≤ wire.length := by
  cases h with
  | head head_len | body head_len | next head_len =>
    rw [List.length_append, head_len]
    exact Nat.le_add_right _ _

/-- **When a reader returns**: over every segmentation of the stream and all destinations it
does if and only if the stream holds no fault. -/
theorem returns_iff (h_sound : fmt.Sound) {c : σ} {wire : List UInt8} {n : ℕ} :
    (∀ es rooms, bytesOf es = wire → (∀ room ∈ rooms, 0 < room) →
      ∃ y, readRun (pollRead p fmt) rooms ⟨c, [], n, .head⟩ es = .ok y) ↔ ¬ Faults fmt c wire := by
  constructor
  · intro h_returns h_faults
    obtain ⟨room, rooms, h_rooms, f, h_error⟩ := readRun_error_of_faults (p := p) h_sound h_faults n
    obtain ⟨y, h_y⟩ := h_returns [.data wire] (room :: rooms) (List.append_nil wire) h_rooms
    rw [readRun_congr rooms (pollRead_data h_sound h_faults.headLen_le), h_error] at h_y
    cases h_y
  · rintro h_quiet es rooms rfl h_rooms
    exact run_returns (I := Quiet fmt) (fun _ _ _ h h_room => quiet_pollRead h_sound h_room h)
      (.head rfl h_quiet) h_rooms

end Faults

end FramedReader

end Frames

end V2ray
