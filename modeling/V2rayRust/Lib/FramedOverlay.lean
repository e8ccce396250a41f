import V2rayRust.Lib.ChunkWriter
import V2rayRust.Lib.FramedReader
import V2rayRust.Lib.Overlay

/-!
# Frames and chunks over any stream

A reader of frames and a writer of chunks do with one answer after the other what they do with a
schedule: a poll without an answer is suspended where a pending answer would suspend it
(`pollRead_later`), bytes that come go into the buffer (`pollRead_feed`), and the writer offers what
is left of its chunk (`offered`). So a stream of the two sits on any other (`Overlay.Sits`).
-/

namespace V2ray

namespace FramedReader

variable {σ : Type} {p : Profile} {fmt : FrameFormat σ} {r : FramedReader σ} {room : ℕ}

/-- A read is suspended below. -/
def Waits (fmt : FrameFormat σ) (r : FramedReader σ) : Prop :=
  r.stage = .head ∧ r.buffer.length < fmt.headLen ∨
    r.stage = .body ∧ r.buffer.length < r.dataLength

/-- `wire` is still to come, and `rest` is in it and in the buffer. -/
def Coming (fmt : FrameFormat σ) (r : FramedReader σ) (wire rest : List UInt8) : Prop :=
  Ahead fmt r (r.buffer ++ wire) rest

def Round.later (es : List ReadEvent) : Round σ → Round σ
  | .next r _ => .next r (.pending :: es)
  | .leave x => .leave (x.later es)

/-- The end of a schedule and a `Pending` are one to `readAtLeast`. -/
theorem readAtLeast_later (length : ℕ) (buffer : List UInt8) (es : List ReadEvent) :
    (readAtLeast length buffer [] = (.full, buffer, []) ∧
      readAtLeast length buffer (.pending :: es) = (.full, buffer, .pending :: es)) ∨
    (readAtLeast length buffer [] = (.pending, buffer, []) ∧
      readAtLeast length buffer (.pending :: es) = (.pending, buffer, es)) := by
  rcases Nat.lt_or_ge buffer.length length with h_lt | h_le
  · refine .inr ⟨?_, readAtLeast_of_lt h_lt _ _⟩
    rw [readAtLeast, if_neg (Nat.not_le_of_lt h_lt)]
  · exact .inl ⟨readAtLeast_of_le h_le _, readAtLeast_of_le h_le _⟩

theorem fail_later (r : FramedReader σ) (es : List ReadEvent) (s : Stop) :
    fail r (.pending :: es) s = (fail r [] s).map (Round.later es) := by
  cases s <;> rfl

/-- A round with a pending answer. -/
theorem round_later (p : Profile) (fmt : FrameFormat σ) (r : FramedReader σ) (room : ℕ)
    (es : List ReadEvent) :
    round p fmt r (.pending :: es) room = (round p fmt r [] room).map (Round.later es) := by
  obtain ⟨cipher, buffer, dataLength, stage⟩ := r
  cases stage with
  -- the head and the body look at the schedule only if the buffer is too short
  | head =>
    unfold round
    dsimp only
    rcases readAtLeast_later fmt.headLen buffer es with ⟨h, h'⟩ | ⟨h, h'⟩
    · rw [h, h']
      dsimp only
      cases fmt.head cipher (buffer.take fmt.headLen) with
      | ok x => rfl
      | error s => exact fail_later _ es s
    · rw [h, h']
      rfl
  | body =>
    unfold round
    dsimp only
    rcases readAtLeast_later dataLength buffer es with ⟨h, h'⟩ | ⟨h, h'⟩
    · rw [h, h']
      dsimp only
      cases fmt.body cipher (buffer.take dataLength) with
      | ok x =>
        dsimp only
        cases p.sub 64 dataLength fmt.tagLen <;> rfl
      | error s => exact fail_later _ es s
    · rw [h, h']
      rfl
  -- what has been read is put, whatever is answered
  | put =>
    unfold round
    dsimp only
    by_cases h_zero : min dataLength room ≠ 0
    · rw [if_pos h_zero, if_pos h_zero]
      cases splitTo (min dataLength room) buffer <;> rfl
    · rw [if_neg h_zero, if_neg h_zero]
      cases splitTo fmt.tagLen buffer <;> rfl
  | done => rfl

/-- A round with no answer leaves none. -/
theorem events_of_round_nil {r' : FramedReader σ} {es' : List ReadEvent}
    (h : round p fmt r [] room = .ok (.next r' es')) : es' = [] := by
  have h_next := next_of_round h
  cases h_next with
  | head stage_eq read_eq head_eq => exact List.suffix_nil.mp (readAtLeast_cases read_eq).2.1
  | body stage_eq read_eq body_eq sub_eq => exact List.suffix_nil.mp (readAtLeast_cases read_eq).2.1
  | put => rfl

/-- **No answer suspends a poll where a pending one does.** -/
theorem pollRead_later (h_sound : fmt.Sound) (r : FramedReader σ) (es : List ReadEvent) :
    pollRead p fmt r (.pending :: es) room =
      (pollRead p fmt r [] room).map (ReadPoll.later es) := by
  -- on the rounds that are left
  induction h_n : rounds r [] using Nat.strong_induction_on generalizing r with
  | _ n ih =>
    have h_round := round_later p fmt r room es
    cases h : round p fmt r [] room with
    -- both end with the same fault
    | error f =>
      rw [h] at h_round
      rw [pollRead_error h, pollRead_error h_round]
      rfl
    | ok z =>
      rw [h] at h_round
      cases z with
      -- both leave the loop
      | leave x =>
        rw [pollRead_leave h, pollRead_leave h_round]
        rfl
      -- both go on, and no answer has been used up
      | next r' es' =>
        obtain rfl := events_of_round_nil h
        have h_fewer := (next_of_round h).rounds_lt h_sound
        rw [pollRead_next h_sound h, pollRead_next h_sound h_round]
        exact ih _ (h_n ▸ h_fewer) r' rfl

/-- A poll that is suspended waits for bytes. -/
theorem waits_of_pollRead {x : ReadPoll (FramedReader σ)} (h : pollRead p fmt r [] room = .ok x)
    (h_pending : x.result = .pending) : Waits fmt x.state := by
  -- no answer comes up, in any round
  have h_next : ∀ (r : FramedReader σ) (es : List ReadEvent) (r' : FramedReader σ)
      (es' : List ReadEvent), es = [] → Next p fmt r es room r' es' → es' = [] := by
    rintro r es r' es' rfl h_next
    cases h_next with
    | head stage_eq read_eq head_eq => exact List.suffix_nil.mp (readAtLeast_cases read_eq).2.1
    | body stage_eq read_eq body_eq sub_eq =>
      exact List.suffix_nil.mp (readAtLeast_cases read_eq).2.1
    | put => rfl
  obtain ⟨r', es', rfl, h_leave⟩ := leave_of_pollRead (I := fun _ es => es = []) h_next rfl h
  -- a round that leaves with `pending` does so for want of bytes
  cases h_leave with
  | @head_unfilled f buffer es' stage_eq not_full read_eq =>
    rw [readAtLeast] at read_eq
    split at read_eq <;> cases read_eq
    · exact absurd rfl not_full
    · next h_lt => exact .inl ⟨stage_eq, Nat.lt_of_not_le h_lt⟩
  | @body_unfilled f buffer es' stage_eq not_full read_eq =>
    rw [readAtLeast] at read_eq
    split at read_eq <;> cases read_eq
    · exact absurd rfl not_full
    · next h_lt => exact .inr ⟨stage_eq, Nat.lt_of_not_le h_lt⟩
  -- the other ways to leave are ready
  | failed => cases h_pending
  | put => cases h_pending
  | done => cases h_pending

/-- Bytes that come go into the buffer. -/
theorem pollRead_feed (h : Waits fmt r) {bs : List UInt8} (h_bs : bs ≠ []) (es : List ReadEvent) :
    pollRead p fmt r (.data bs :: es) room =
      pollRead p fmt { r with buffer := r.buffer ++ bs } es room := by
  have h_read {length : ℕ} (h_lt : r.buffer.length < length) :
      readAtLeast length r.buffer (.data bs :: es) = readAtLeast length (r.buffer ++ bs) es :=
    (readAtLeast_of_lt h_lt _ _).trans (if_neg h_bs)
  have h_round : round p fmt r (.data bs :: es) room =
      round p fmt { r with buffer := r.buffer ++ bs } es room := by
    unfold round
    rcases h with ⟨h_stage, h_lt⟩ | ⟨h_stage, h_lt⟩
    · rw [h_stage, h_read h_lt]
    · rw [h_stage, h_read h_lt]
  have h_rounds : rounds r (.data bs :: es) = rounds { r with buffer := r.buffer ++ bs } es := by
    unfold rounds
    rw [bytesOf_cons, List.length_append, List.length_append]
    dsimp only [ReadEvent.bytes]
    omega
  unfold pollRead
  rw [h_rounds, pollLoop, pollLoop, h_round]

/-- It makes no difference if bytes to come are already in the buffer. -/
theorem coming_feed (h : Waits fmt r) {bs wire rest : List UInt8}
    (h_coming : Coming fmt r (bs ++ wire) rest) :
    Coming fmt { r with buffer := r.buffer ++ bs } wire rest := by
  unfold Coming at h_coming ⊢
  rw [← List.append_assoc] at h_coming
  generalize r.buffer ++ bs ++ wire = all at h_coming ⊢
  cases h_coming with
  | head stage_eq frames => exact .head stage_eq frames
  | body stage_eq b_len body_eq tag_len frames => exact .body stage_eq b_len body_eq tag_len frames
  | put stage_eq =>
    rcases h with ⟨h_stage, -⟩ | ⟨h_stage, -⟩ <;> rw [h_stage] at stage_eq <;> cases stage_eq

/-- The end of the stream below ends a reader that waits for bytes. -/
theorem pollRead_end (h : Waits fmt r) :
    pollRead p fmt r [.data []] room =
      .ok ⟨{ r with stage := .done }, [], .ready (.ok ()), []⟩ := by
  have h_read {length : ℕ} (h_lt : r.buffer.length < length) :
      readAtLeast length r.buffer [.data []] = (.ended, r.buffer, []) :=
    (readAtLeast_of_lt h_lt _ _).trans (if_pos rfl)
  apply pollRead_leave
  unfold round
  rcases h with ⟨h_stage, h_lt⟩ | ⟨h_stage, h_lt⟩
  · rw [h_stage, h_read h_lt]
    rfl
  · rw [h_stage, h_read h_lt]
    rfl

/-- A poll puts no more than there is room for. -/
theorem length_put_of_pollRead {es : List ReadEvent} {x : ReadPoll (FramedReader σ)}
    (h : pollRead p fmt r es room = .ok x) : x.put.length ≤ room := by
  obtain ⟨r', es', -, h_leave⟩ :=
    leave_of_pollRead (I := fun _ _ => True) (fun _ _ _ _ _ _ => trivial) trivial h
  cases h_leave with
  | @head_unfilled f => cases f <;> exact Nat.zero_le _
  | @body_unfilled f => cases f <;> exact Nat.zero_le _
  | failed => exact Nat.zero_le _
  | put => exact Nat.le_trans (List.length_take_le _ _) (Nat.min_le_right _ _)
  | done => exact Nat.zero_le _

end FramedReader

/-! ### Chunks -/

/-- The chunks of slices, one for each. -/
inductive SealedEach {σ : Type} (fmt : ChunkFormat σ) :
    σ → List (List UInt8) → List (List UInt8) → Prop
  | nil (c : σ) : SealedEach fmt c [] []
  | cons {c c' : σ} {data chunk : List UInt8} {slices chunks : List (List UInt8)}
      (not_end : fmt.emptyEnds → data ≠ [])
      (chunk_eq : fmt.chunk c (data.take fmt.limit) = .ok (c', chunk))
      (rest : SealedEach fmt c' slices chunks) :
      SealedEach fmt c (data :: slices) (chunk :: chunks)

theorem SealedEach.sealed {σ : Type} {fmt : ChunkFormat σ} {c : σ}
    {slices chunks : List (List UInt8)} (h : SealedEach fmt c slices chunks) :
    Sealed fmt c slices chunks.flatten := by
  induction h with
  | nil c => exact .nil c
  | cons not_end chunk_eq _ ih => exact .cons not_end chunk_eq ih

namespace ChunkWriter

variable {σ : Type} {fmt : ChunkFormat σ} {w : ChunkWriter σ}

/-- What is left of a chunk. -/
def offers (w : ChunkWriter σ) : List UInt8 := w.buffer.drop w.pos

/-- The chunks that a writer still has to write when these slices are left, the first one in part
if it is suspended. -/
inductive OwesEach (fmt : ChunkFormat σ) (w : ChunkWriter σ) :
    List (List UInt8) → List (List UInt8) → Prop
  | nothing (stage_eq : w.stage = .idle) : OwesEach fmt w [] []
  | idle {data chunk : List UInt8} {slices chunks : List (List UInt8)} (stage_eq : w.stage = .idle)
      (each : SealedEach fmt w.cipher (data :: slices) (chunk :: chunks)) :
      OwesEach fmt w (data :: slices) ((w.buffer ++ chunk) :: chunks)
  | writing {data : List UInt8} {slices chunks : List (List UInt8)} (stage_eq : w.stage = .writing)
      (dataLen_eq : w.dataLen = min fmt.limit data.length) (lt : w.pos < w.buffer.length)
      (each : SealedEach fmt w.cipher slices chunks) :
      OwesEach fmt w (data :: slices) (w.offers :: chunks)

/-- An idle writer with nothing in its buffer owes a chunk for each slice. -/
theorem owesEach_of_each {slices chunks : List (List UInt8)} (h_stage : w.stage = .idle)
    (h_buffer : w.buffer = []) (h : SealedEach fmt w.cipher slices chunks) :
    OwesEach fmt w slices chunks := by
  cases h with
  | nil => exact .nothing h_stage
  | @cons _ c' data chunk slices chunks not_end chunk_eq rest =>
    have h_owes := OwesEach.idle h_stage (.cons not_end chunk_eq rest)
    rwa [h_buffer, List.nil_append] at h_owes

theorem push_nil (h : w.pos < w.buffer.length) :
    push w [] = ⟨{ w with stage := .writing }, [], .pending, [], []⟩ := by
  unfold push
  rw [writeData, if_pos h]

/-- A suspended writer whose chunk is taken in part, or as a whole. -/
theorem push_accept {n : ℕ} (h_n : 0 < n) :
    (n < w.offers.length →
      (push w [.accept n]).result = .pending ∧
        (push w [.accept n]).state = { w with pos := w.pos + n, stage := .writing }) ∧
    (w.offers.length ≤ n → w.pos < w.buffer.length →
      (push w [.accept n]).result = .ready (.ok w.dataLen) ∧
        (push w [.accept n]).state =
          { w with pos := w.buffer.length, buffer := [], stage := .idle }) := by
  -- the chunk from `w.pos` on is what is offered
  have h_len : w.offers.length = w.buffer.length - w.pos := List.length_drop
  -- one answer and the loop of writes goes on where it takes it
  have h_write (h_lt : w.pos < w.buffer.length) : writeData w.buffer w.pos [.accept n] =
      let x := writeData w.buffer (w.pos + (w.offers.take n).length) []
      { x with out := w.offers.take n ++ x.out } := by
    have h_ne : (w.buffer.drop w.pos).take n ≠ [] := by
      apply List.ne_nil_of_length_pos
      rw [List.length_take, List.length_drop]
      omega
    conv_lhs => rw [writeData, if_pos h_lt]
    dsimp only
    rw [if_neg h_ne]
    rfl
  constructor
  · -- a part: the loop finds no second answer, so the poll is pending
    intro h_part
    have h_take : (w.offers.take n).length = n := by
      rw [List.length_take]
      omega
    unfold push
    rw [h_write (by omega), h_take, writeData, if_pos (by omega)]
    exact ⟨rfl, rfl⟩
  · -- all of it: the loop ends, and the writer is idle again
    intro h_whole h_lt
    have h_take : w.pos + (w.offers.take n).length = w.buffer.length := by
      rw [List.length_take]
      omega
    unfold push
    rw [h_write h_lt, h_take, writeData, if_neg (Nat.lt_irrefl _)]
    exact ⟨rfl, rfl⟩

/-- What a suspended writer does with its answers. -/
structure Offered (fmt : ChunkFormat σ) (w : ChunkWriter σ) (data : List UInt8)
    (slices : List (List UInt8)) (chunk : List UInt8) (chunks : List (List UInt8)) : Prop where
  offers_eq : w.offers = chunk
  owes : OwesEach fmt w (data :: slices) (chunk :: chunks)
  part : ∀ n, 0 < n → n < chunk.length → ∃ z, pollWrite fmt w [.accept n] data = .ok z ∧
    z.result = .pending ∧ OwesEach fmt z.state (data :: slices) (chunk.drop n :: chunks)
  whole : ∃ z, pollWrite fmt w [.accept chunk.length] data = .ok z ∧
    z.result = .ready (.ok (min fmt.limit data.length)) ∧ OwesEach fmt z.state slices chunks

/-- A writer that is in the middle of its chunk offers the rest of it. -/
theorem offered_of_writing {data : List UInt8} {slices chunks : List (List UInt8)}
    (h_stage : w.stage = .writing) (h_len : w.dataLen = min fmt.limit data.length)
    (h_lt : w.pos < w.buffer.length) (h_each : SealedEach fmt w.cipher slices chunks) :
    Offered fmt w data slices w.offers chunks := by
  have h_offers : w.offers.length = w.buffer.length - w.pos := List.length_drop
  have h_poll (ws : List WriteEvent) : pollWrite fmt w ws data = .ok (push w ws) := by
    unfold pollWrite
    rw [h_stage]
  -- in this state a poll does nothing but push
  refine ⟨rfl, .writing h_stage h_len h_lt h_each, fun n h_n h_part => ?_, ?_⟩
  · -- a part is taken
    obtain ⟨h_result, h_state⟩ := (push_accept h_n).1 h_part
    refine ⟨_, h_poll _, h_result, ?_⟩
    have h_owes : OwesEach fmt { w with pos := w.pos + n, stage := .writing } (data :: slices)
        (w.buffer.drop (w.pos + n) :: chunks) :=
      .writing rfl h_len (show w.pos + n < w.buffer.length by omega) h_each
    have h_drop : w.offers.drop n = w.buffer.drop (w.pos + n) := List.drop_drop
    rw [h_state, h_drop]
    exact h_owes
  · -- the whole chunk is taken
    obtain ⟨h_result, h_state⟩ := (push_accept (show 0 < w.offers.length by omega)).2
      (Nat.le_refl _) h_lt
    refine ⟨_, h_poll _, ?_, ?_⟩
    · rw [h_result, h_len]
    · rw [h_state]
      exact owesEach_of_each rfl rfl h_each

/-- **A writer offers what is left of its chunk.** -/
theorem offered (h_chunk : ∀ {c c' : σ} {data chunk : List UInt8},
      fmt.chunk c data = .ok (c', chunk) → chunk ≠ [])
    {data : List UInt8} {slices chunks' : List (List UInt8)}
    (h : OwesEach fmt w (data :: slices) chunks') :
    ∃ chunk chunks x, chunks' = chunk :: chunks ∧ chunk ≠ [] ∧ pollWrite fmt w [] data = .ok x ∧
      x.result = .pending ∧ Offered fmt x.state data slices chunk chunks := by
  cases h with
  -- the writer is idle: the poll seals the next slice, and finds no answer for it
  | @idle _ chunk _ chunks stage_eq each =>
    cases each with
    | @cons _ c' _ _ _ _ not_end chunk_eq rest =>
      have h_pos := List.length_pos_iff.mpr (h_chunk chunk_eq)
      let w' : ChunkWriter σ :=
        ⟨c', w.buffer ++ chunk, 0, (data.take fmt.limit).length, .writing⟩
      have h_lt : w'.pos < w'.buffer.length := by
        show 0 < (w.buffer ++ chunk).length
        rw [List.length_append]
        omega
      have h_ne : w.buffer ++ chunk ≠ [] := List.ne_nil_of_length_pos h_lt
      have h_poll : pollWrite fmt w [] data =
          .ok ⟨w', [], .pending, [], [(w.cipher, data.take fmt.limit)]⟩ := by
        unfold pollWrite
        rw [stage_eq]
        dsimp only
        rw [if_neg (fun h => not_end h.1 h.2), chunk_eq, ok_bind]
        exact congrArg (fun x : WritePoll σ =>
          Except.ok { x with chunks := [(w.cipher, data.take fmt.limit)] }) (push_nil h_lt)
      have h_len : w'.dataLen = min fmt.limit data.length := List.length_take
      exact ⟨_, _, _, rfl, h_ne, h_poll, rfl, offered_of_writing rfl h_len h_lt rest⟩
  -- a chunk is under way: the poll finds no answer
  | @writing _ _ chunks stage_eq dataLen_eq lt each =>
    have h_pos : 0 < w.offers.length := by
      show 0 < (w.buffer.drop w.pos).length
      rw [List.length_drop]
      omega
    have h_poll : pollWrite fmt w [] data =
        .ok ⟨{ w with stage := .writing }, [], .pending, [], []⟩ := by
      unfold pollWrite
      rw [stage_eq]
      dsimp only
      rw [push_nil lt]
    exact ⟨_, _, _, rfl, List.ne_nil_of_length_pos h_pos, h_poll, rfl,
      offered_of_writing (w := { w with stage := .writing }) rfl dataLen_eq lt each⟩

end ChunkWriter

end V2ray
