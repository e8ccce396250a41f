import Mathlib.Algebra.GroupWithZero.Nat
import V2rayRust.Lib.H2Body

/-!
# The HTTP/2 stream

`proxy/h2/mod.rs`: a poll of `Http2Stream` hands over what the stream has kept of a DATA frame, or
else takes the next frame, gives the bytes that fit into the destination back to the receive window,
and keeps the others. What it has kept it never gives back. So no byte is lost, but the window
shrinks by every byte that goes through the buffer (`Http2Stream.conserves_iff`).
-/

namespace V2ray

/-- `Http2Stream`, less the stream that it sends to. -/
structure Http2Stream where
  buffer : List UInt8
  /-- what was given to `release_capacity`, call by call -/
  released : List ℕ
  deriving DecidableEq

namespace Http2Stream

def new : Http2Stream := ⟨[], []⟩

/-- `poll_read`. `release` is what the last call of `release_capacity` answers. -/
def pollRead (release : List ℕ → Except String Unit) (s : Http2Stream) (es : List BodyEvent)
    (room : ℕ) : SourcePoll BodyEvent Http2Stream :=
  if s.buffer ≠ [] then
    let toRead := min room s.buffer.length
    ⟨{ s with buffer := s.buffer.drop toRead }, es, .ready (.ok ()), s.buffer.take toRead⟩
  else match es with
  | [] => ⟨s, [], .pending, []⟩
  | .pending :: es => ⟨s, es, .pending, []⟩
  | .data data :: es =>
    let toRead := min room data.length
    -- the payload that is left
    let buffer := if toRead < data.length then s.buffer ++ data.drop toRead else s.buffer
    let released := s.released ++ [toRead]
    ⟨⟨buffer, released⟩, es, .ready (release released), data.take toRead⟩
  -- no more frames, or an error: the end of the stream
  | .err _ :: es | .ended :: es => ⟨s, es, .ready (.ok ()), []⟩

/-- Polls with destinations of these sizes. -/
def polls (release : List ℕ → Except String Unit) :
    List ℕ → Http2Stream → List BodyEvent → SourcePolls BodyEvent Http2Stream :=
  sourcePolls (pollRead release)

/-- What is delivered and what is kept are the frames that were received, and as much has been given
back as was delivered. -/
def Conserves (release : List ℕ → Except String Unit) (rooms : List ℕ) (es : List BodyEvent) :
    Prop :=
  let y := polls release rooms new es
  (∃ received, es = received ++ y.events ∧ y.put ++ y.state.buffer = frameBytes received) ∧
    y.state.released.sum = y.put.length

/-- A poll does not take bytes that were kept. -/
def TakesFrame (s : Http2Stream) (room : ℕ) : Prop := s.buffer = [] ∨ room = 0

/-- None of these polls does. -/
def TakeFrames (release : List ℕ → Except String Unit) :
    List ℕ → Http2Stream → List BodyEvent → Prop
  | [], _, _ => True
  | room :: rooms, s, es =>
    s.TakesFrame room ∧
      let x := s.pollRead release es room
      TakeFrames release rooms x.state x.events

/-! ### One poll -/

variable {release : List ℕ → Except String Unit} {s : Http2Stream} {es : List BodyEvent} {room : ℕ}

/-- What a poll does: it takes kept bytes, or a frame, or nothing. -/
inductive Read (release : List ℕ → Except String Unit) (s : Http2Stream) (room : ℕ) :
    List BodyEvent → SourcePoll BodyEvent Http2Stream → Prop
  | kept (ne_nil : s.buffer ≠ []) (es : List BodyEvent) : Read release s room es
      ⟨{ s with buffer := s.buffer.drop room }, es, .ready (.ok ()), s.buffer.take room⟩
  | frame (nil : s.buffer = []) (data : List UInt8) (es : List BodyEvent) :
      Read release s room (.data data :: es)
        ⟨⟨data.drop room, s.released ++ [min room data.length]⟩, es,
          .ready (release (s.released ++ [min room data.length])), data.take room⟩
  | nothing {used es : List BodyEvent} (nil : s.buffer = []) (no_bytes : frameBytes used = [])
      (result : Poll (Except String Unit)) : Read release s room (used ++ es) ⟨s, es, result, []⟩

/-- How a poll ends. -/
theorem read_pollRead (s : Http2Stream) (es : List BodyEvent) (room : ℕ) :
    Read release s room es (s.pollRead release es room) := by
  unfold pollRead
  by_cases h_buffer : s.buffer = []
  · rw [if_neg (not_not_intro h_buffer)]
    -- without bytes nothing is put, and nothing given back
    match es with
    | [] => exact @Read.nothing _ _ _ [] [] h_buffer rfl _
    | .pending :: es => exact @Read.nothing _ _ _ [.pending] es h_buffer rfl _
    | .err message :: es => exact @Read.nothing _ _ _ [.err message] es h_buffer rfl _
    | .ended :: es => exact @Read.nothing _ _ _ [.ended] es h_buffer rfl _
    | .data data :: es =>
      -- what does not fit is kept
      have h_left : (if min room data.length < data.length then
          s.buffer ++ data.drop (min room data.length) else s.buffer) = data.drop room := by
        rw [h_buffer, List.nil_append]
        split
        · next h_lt => rw [Nat.min_eq_left (by omega)]
        · next h_ge => rw [List.drop_eq_nil_of_le (by omega)]
      dsimp only
      rw [h_left, ← List.take_eq_take_min]
      exact .frame h_buffer data es
  · -- what was kept is put, and nothing is given back for it
    rw [if_pos h_buffer]
    have h_drop : s.buffer.drop (min room s.buffer.length) = s.buffer.drop room := by
      rcases Nat.le_total room s.buffer.length with h_le | h_le
      · rw [Nat.min_eq_left h_le]
      · rw [Nat.min_eq_right h_le, List.drop_length, List.drop_eq_nil_of_le h_le]
    dsimp only
    rw [h_drop, ← List.take_eq_take_min]
    exact .kept h_buffer es

/-- A poll delivers and keeps what was kept and what it has received. -/
theorem received_pollRead (s : Http2Stream) (es : List BodyEvent) (room : ℕ) :
    let x := s.pollRead release es room
    ∃ used, es = used ++ x.events ∧ x.put ++ x.state.buffer = s.buffer ++ frameBytes used := by
  have h_read : Read release s room es (s.pollRead release es room) := read_pollRead s es room
  generalize s.pollRead release es room = x at h_read
  cases h_read with
  | kept ne_nil => exact ⟨[], rfl, (List.take_append_drop _ _).trans (List.append_nil _).symm⟩
  | frame nil data es =>
    refine ⟨[.data data], rfl, ?_⟩
    dsimp only
    rw [List.take_append_drop, nil]
    exact (List.append_nil data).symm
  | @nothing used es nil no_bytes result =>
    refine ⟨used, rfl, ?_⟩
    rw [no_bytes, List.append_nil]
    rfl

/-- **One poll** gives back no more than it delivers, and less if it takes bytes that were kept. -/
theorem released_pollRead (s : Http2Stream) (es : List BodyEvent) (room : ℕ) :
    let x := s.pollRead release es room
    x.state.released.sum ≤ s.released.sum + x.put.length ∧
      (x.state.released.sum = s.released.sum + x.put.length ↔ s.TakesFrame room) := by
  have h_read : Read release s room es (s.pollRead release es room) := read_pollRead s es room
  generalize s.pollRead release es room = x at h_read
  cases h_read with
  | kept ne_nil =>
    -- what was kept is put, and nothing is given back for it
    have h_pos := List.length_pos_iff.mpr ne_nil
    have h_takes : s.TakesFrame room ↔ room = 0 := or_iff_right ne_nil
    dsimp only
    rw [h_takes, List.length_take]
    omega
  | frame nil data es =>
    have h_sum : (s.released ++ [min room data.length]).sum =
        s.released.sum + (data.take room).length := by
      rw [List.sum_append, List.sum_singleton, List.length_take]
    exact ⟨Nat.le_of_eq h_sum, iff_of_true h_sum (Or.inl nil)⟩
  | nothing nil => exact ⟨Nat.le_refl _, iff_of_true rfl (Or.inl nil)⟩

/-- Polls give back no more than they put, and as much exactly if none of them puts what a poll
before has kept. -/
theorem released_polls (rooms : List ℕ) (s : Http2Stream) (es : List BodyEvent) :
    let y := polls release rooms s es
    y.state.released.sum ≤ s.released.sum + y.put.length ∧
      (y.state.released.sum = s.released.sum + y.put.length ↔ TakeFrames release rooms s es) := by
  induction rooms generalizing s es with
  | nil => exact ⟨Nat.le_refl _, iff_of_true rfl trivial⟩
  | cons room rooms ih =>
    obtain ⟨h_le, h_iff⟩ := @released_pollRead release s es room
    rw [polls, sourcePolls, TakeFrames]
    generalize s.pollRead release es room = x at h_le h_iff
    obtain ⟨h_le', h_iff'⟩ := ih x.state x.events
    rw [polls] at h_le' h_iff'
    dsimp only at h_le h_iff h_le' h_iff' ⊢
    rw [List.length_append, ← h_iff, ← h_iff']
    -- what one poll has not given back, later polls do not give back either
    omega

/-- **Flow control.** After any polls on a new stream, what is delivered and what is kept are the
frames that were received, and as much has been given back to the window as was delivered, if and
only if no poll has taken bytes that were kept of a frame. -/
theorem conserves_iff (release : List ℕ → Except String Unit) (rooms : List ℕ)
    (es : List BodyEvent) : Conserves release rooms es ↔ TakeFrames release rooms new es := by
  obtain ⟨received, h_es, h_bytes⟩ := sourcePolls_received (@received_pollRead release) rooms new es
  have h_iff := (@released_polls release rooms new es).2
  rw [show new.released.sum = 0 from rfl, Nat.zero_add] at h_iff
  exact (and_iff_right ⟨received, h_es, h_bytes⟩).trans h_iff

/-- A frame of three bytes is read two bytes at a time: nothing is kept any more, and one byte has
not been given back. -/
theorem conserves_leak :
    let y := polls (fun _ => .ok ()) [2, 2] new [.data [1, 2, 3]]
    y.put = [1, 2, 3] ∧ y.state.buffer = [] ∧ y.state.released.sum = 2 ∧
      ¬ Conserves (fun _ => .ok ()) [2, 2] [.data [1, 2, 3]] := by
  refine ⟨rfl, rfl, rfl, fun h => ?_⟩
  cases h.2

end Http2Stream

end V2ray
