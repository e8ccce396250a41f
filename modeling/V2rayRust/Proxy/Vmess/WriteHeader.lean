import V2rayRust.Proxy.Vmess.VmessStream

/-!
# Sending the request header

`VmessStream::poll_write_header` of `proxy/vmess/vmess_stream.rs`: a call writes what is left of the
header, and if not all of it is taken it yields, whatever the write has answered. So it is pending
without being woken later exactly if a write takes some of the header, or nothing, and not all that
is left (`VmessSender.wakes_iff`).
-/

namespace V2ray

/-- Where `poll_write_header` is suspended. -/
inductive VmessWriteState
  | header
  | streaming
  | done
  deriving DecidableEq, Repr

/-- `VmessStream` with the request header that it sends. -/
structure VmessSender extends VmessStream where
  headerBuffer : List UInt8
  headerPos : ℕ
  state2 : VmessWriteState

/-- What a call leaves, what the stream below has taken in it, and the answers of its writes. -/
structure SenderPoll where
  state : VmessSender
  events : List WriteEvent
  result : Poll (Except String ℕ)
  out : List UInt8
  answers : List WriteEvent

namespace VmessSender

/-- `VmessStream::new`: nothing of the header is sent. -/
def new (stream : VmessStream) (headerBuffer : List UInt8) : VmessSender :=
  { stream with headerBuffer := headerBuffer, headerPos := 0, state2 := .header }

/-- The loop that writes data. -/
def streamData (A : Aead) (p : Profile) (s : VmessSender) (ws : List WriteEvent)
    (buf : List UInt8) :
    Except Fault SenderPoll := do
  let x ← s.writer.pollWrite (VmessAeadWriter.format A p) ws buf
  return {
    state := { s with writer := x.state, state2 := .streaming }
    events := x.events
    result := x.result
    out := x.out
    answers := s.writer.answers (VmessAeadWriter.format A p) ws buf }

/-- `poll_write_header` -/
def pollWriteHeader (A : Aead) (p : Profile) (s : VmessSender) (ws : List WriteEvent)
    (buf : List UInt8) : Except Fault SenderPoll :=
  match s.state2 with
  | .header =>
    if s.headerPos < s.headerBuffer.length then
      match ws with
      | [] => .ok ⟨s, [], .pending, [], [.pending]⟩
      | .pending :: ws => .ok ⟨s, ws, .pending, [], [.pending]⟩
      | .err message :: ws =>
        .ok ⟨{ s with state2 := .done }, ws, .ready (.error message), [], [.err message]⟩
      | .accept n :: ws =>
        let taken := (s.headerBuffer.drop s.headerPos).take n
        let s := { s with headerPos := s.headerPos + taken.length }
        -- the write was ready, and the stream below will not wake the task
        if s.headerPos < s.headerBuffer.length then .ok ⟨s, ws, .pending, taken, [.accept n]⟩
        else do
          let x ← s.streamData A p ws buf
          return { x with out := taken ++ x.out, answers := .accept n :: x.answers }
    else s.streamData A p ws buf
  | .streaming => s.streamData A p ws buf
  | .done => .ok ⟨s, ws, .ready (.error "unexpected end of file"), [], []⟩

/-- One call for each of these slices. -/
def calls (A : Aead) (p : Profile) :
    List (List UInt8) → VmessSender → List WriteEvent → Except Fault (List SenderPoll)
  | [], _, _ => .ok []
  | buf :: bufs, s, ws => do
    let x ← s.pollWriteHeader A p ws buf
    return x :: (← calls A p bufs x.state x.events)

/-- A call is pending only if the last write of it was, which will wake the task. -/
def Woken (x : SenderPoll) : Prop := x.result = .pending → x.answers.getLast? = some .pending

/-- The first write that is not pending comes in one of so many calls, and takes less than all of
the header. -/
def TakesPart (header : List UInt8) (calls : ℕ) (ws : List WriteEvent) : Prop :=
  ∃ pendings n rest, ws = List.replicate pendings .pending ++ .accept n :: rest ∧
    n < header.length ∧ pendings < calls

variable {A : Aead} {p : Profile} {s : VmessSender} {ws : List WriteEvent} {buf : List UInt8}
  {bufs : List (List UInt8)} {x : SenderPoll} {xs : List SenderPoll}

theorem woken_streamData (h : s.streamData A p ws buf = .ok x) :
    Woken x ∧ x.state.state2 = .streaming := by
  obtain ⟨y, h_poll, h⟩ := bind_eq_ok.mp h
  cases h
  exact ⟨fun h_pending => answers_pending h_poll h_pending, rfl⟩

/-- After the header, every call that is pending will be woken. -/
theorem woken_calls (h_state : s.state2 ≠ .header) (h : calls A p bufs s ws = .ok xs) :
    ∀ x ∈ xs, Woken x := by
  induction bufs generalizing s ws xs with
  | nil =>
    cases h
    exact List.forall_mem_nil _
  | cons buf bufs ih =>
    obtain ⟨x, h_poll, h⟩ := bind_eq_ok.mp h
    obtain ⟨ys, h_rest, h⟩ := bind_eq_ok.mp h
    cases h
    unfold pollWriteHeader at h_poll
    split at h_poll
    · next h_header => exact absurd h_header h_state
    · obtain ⟨h_woken, h_streaming⟩ := woken_streamData h_poll
      have h_next : x.state.state2 ≠ .header := by
        rw [h_streaming]
        exact VmessWriteState.noConfusion
      exact List.forall_mem_cons.mpr ⟨h_woken, ih h_next h_rest⟩
    · next h_done =>
      cases h_poll
      exact List.forall_mem_cons.mpr ⟨fun h_pending => (by cases h_pending), ih h_state h_rest⟩

variable {stream : VmessStream} {header : List UInt8}

/-- A call that finds the stream below pending leaves everything as it is. -/
theorem pollWriteHeader_pending (h : header ≠ []) (buf : List UInt8) :
    (new stream header).pollWriteHeader A p (.pending :: ws) buf =
      .ok ⟨new stream header, ws, .pending, [], [.pending]⟩ :=
  if_pos (List.length_pos_iff.mpr h)

theorem pollWriteHeader_over (h : header ≠ []) (buf : List UInt8) :
    (new stream header).pollWriteHeader A p [] buf =
      .ok ⟨new stream header, [], .pending, [], [.pending]⟩ :=
  if_pos (List.length_pos_iff.mpr h)

theorem pollWriteHeader_err (h : header ≠ []) (message : String) (buf : List UInt8) :
    (new stream header).pollWriteHeader A p (.err message :: ws) buf =
      .ok ⟨{ new stream header with state2 := .done }, ws, .ready (.error message), [],
        [.err message]⟩ :=
  if_pos (List.length_pos_iff.mpr h)

/-- A call whose write takes not all of the header is pending, and will not be woken. -/
theorem not_woken_of_part {n : ℕ} (h_n : n < header.length)
    (h : (new stream header).pollWriteHeader A p (.accept n :: ws) buf = .ok x) : ¬ Woken x := by
  have h_len : 0 + (header.take n).length < header.length := by
    rw [List.length_take]
    omega
  replace h : (if 0 < header.length then
      if 0 + (header.take n).length < header.length then
        .ok ⟨{ new stream header with headerPos := 0 + (header.take n).length }, ws, .pending,
          header.take n, [.accept n]⟩
      else _
    else _ : Except Fault SenderPoll) = .ok x := h
  rw [if_pos (Nat.lt_of_le_of_lt (Nat.zero_le n) h_n), if_pos h_len] at h
  cases h
  intro h_woken
  cases h_woken rfl

/-- A call whose write takes all of it goes on to the data. -/
theorem woken_of_all {n : ℕ} (h_header : header ≠ []) (h_n : header.length ≤ n)
    (h : (new stream header).pollWriteHeader A p (.accept n :: ws) buf = .ok x) :
    Woken x ∧ x.state.state2 = .streaming := by
  have h_len : ¬ 0 + (header.take n).length < header.length := by
    rw [List.take_of_length_le h_n, Nat.zero_add]
    exact Nat.lt_irrefl _
  let s : VmessSender := { new stream header with headerPos := 0 + (header.take n).length }
  replace h : (if 0 < header.length then
      if 0 + (header.take n).length < header.length then _
      else do
        let x ← s.streamData A p ws buf
        return { x with out := header.take n ++ x.out, answers := .accept n :: x.answers }
    else _ : Except Fault SenderPoll) = .ok x := h
  rw [if_pos (List.length_pos_iff.mpr h_header), if_neg h_len] at h
  obtain ⟨y, h_stream, h⟩ := bind_eq_ok.mp h
  obtain ⟨h_woken, h_state⟩ := woken_streamData h_stream
  cases h
  refine ⟨fun h_pending => ?_, h_state⟩
  -- the last write was one of the data
  have h_last := h_woken h_pending
  dsimp only
  rw [List.getLast?_cons, h_last]
  rfl

/-- A new stream without a header begins with the data. -/
theorem woken_of_nil (h : (new stream []).pollWriteHeader A p ws buf = .ok x) :
    Woken x ∧ x.state.state2 = .streaming := woken_streamData h

theorem not_takesPart_nil (header : List UInt8) (n : ℕ) : ¬ TakesPart header n [] := by
  rintro ⟨pendings, n, rest, h_ws, -⟩
  cases pendings <;> cases h_ws

theorem takesPart_pending {n : ℕ} :
    TakesPart header (n + 1) (.pending :: ws) ↔ TakesPart header n ws := by
  constructor
  · rintro ⟨pendings, k, rest, h_ws, h_part, h_calls⟩
    cases pendings with
    | zero => cases h_ws
    | succ pendings =>
      obtain ⟨-, h_ws⟩ := List.cons.inj h_ws
      exact ⟨pendings, k, rest, h_ws, h_part, Nat.lt_of_succ_lt_succ h_calls⟩
  · rintro ⟨pendings, k, rest, rfl, h_part, h_calls⟩
    exact ⟨pendings + 1, k, rest, rfl, h_part, Nat.succ_lt_succ h_calls⟩

theorem takesPart_accept {n k : ℕ} :
    TakesPart header (n + 1) (.accept k :: ws) ↔ k < header.length := by
  constructor
  · rintro ⟨pendings, _, rest, h_ws, h_part, -⟩
    cases pendings <;> cases h_ws
    exact h_part
  · exact fun h => ⟨0, k, ws, rfl, h, Nat.succ_pos n⟩

theorem not_takesPart_err {n : ℕ} (message : String) :
    ¬ TakesPart header n (.err message :: ws) := by
  rintro ⟨pendings, _, rest, h_ws, -⟩
  cases pendings <;> cases h_ws

/-- The first call of a run, and the others. -/
theorem calls_cons (h : calls A p (buf :: bufs) s ws = .ok xs) :
    ∃ x ys, s.pollWriteHeader A p ws buf = .ok x ∧ calls A p bufs x.state x.events = .ok ys ∧
      xs = x :: ys := by
  obtain ⟨x, h_poll, h⟩ := bind_eq_ok.mp h
  obtain ⟨ys, h_rest, h⟩ := bind_eq_ok.mp h
  cases h
  exact ⟨x, ys, h_poll, h_rest, rfl⟩

/-- **Waiting.** In a run of a new stream, a call of `poll_write_header` is pending only if the last
write of the stream below was pending in it, if and only if the first write that is not pending
takes all of the header, or fails. -/
theorem wakes_iff (h : calls A p bufs (new stream header) ws = .ok xs) :
    (∀ x ∈ xs, Woken x) ↔ ¬ TakesPart header bufs.length ws := by
  induction bufs generalizing ws xs with
  | nil =>
    cases h
    refine iff_of_true (List.forall_mem_nil _) ?_
    rintro ⟨_, _, _, _, _, h_calls⟩
    exact Nat.not_lt_zero _ h_calls
  | cons buf bufs ih =>
    obtain ⟨x, ys, h_poll, h_rest, rfl⟩ := calls_cons h
    have h_later (h_x : Woken x ∧ x.state.state2 ≠ .header) : ∀ z ∈ x :: ys, Woken z :=
      List.forall_mem_cons.mpr ⟨h_x.1, woken_calls h_x.2 h_rest⟩
    have h_streaming (h_x : Woken x ∧ x.state.state2 = .streaming) : ∀ z ∈ x :: ys, Woken z := by
      refine h_later ⟨h_x.1, ?_⟩
      rw [h_x.2]
      exact VmessWriteState.noConfusion
    -- an empty header is written at once, and nothing is left to wait for
    by_cases h_header : header = []
    · subst h_header
      refine iff_of_true (h_streaming (woken_of_nil h_poll)) ?_
      rintro ⟨_, _, _, _, h_part, _⟩
      exact Nat.not_lt_zero _ h_part
    -- otherwise the first call is decided by the first answer of the stream below
    match ws with
    | [] =>
      rw [pollWriteHeader_over h_header] at h_poll
      cases h_poll
      rw [List.forall_mem_cons, and_iff_right (show Woken _ from fun _ => rfl), ih h_rest]
      exact iff_of_true (not_takesPart_nil _ _) (not_takesPart_nil _ _)
    | .pending :: ws =>
      rw [pollWriteHeader_pending h_header] at h_poll
      cases h_poll
      rw [List.forall_mem_cons, List.length_cons, takesPart_pending, ← ih h_rest]
      exact and_iff_right fun _ => rfl
    | .err message :: ws =>
      rw [pollWriteHeader_err h_header] at h_poll
      cases h_poll
      refine iff_of_true (h_later ⟨fun h => (by cases h), VmessWriteState.noConfusion⟩) ?_
      exact not_takesPart_err message
    | .accept n :: ws =>
      rw [List.length_cons, takesPart_accept]
      -- a part of the header is taken, and the call is pending without a waker
      by_cases h_n : n < header.length
      · refine iff_of_false (fun h => ?_) (not_not_intro h_n)
        exact not_woken_of_part h_n h_poll (List.forall_mem_cons.mp h).1
      · exact iff_of_true (h_streaming (woken_of_all h_header (Nat.le_of_not_lt h_n) h_poll)) h_n

/-- The header goes out in one write, and the slice after it. -/
theorem wakes_iff_whole :
    ∃ stream xs, VmessStream.new .zeros 3 (Vector.replicate 64 0) = .ok stream ∧
      calls .tagged .release [[1, 2], [1, 2]] (new stream (List.replicate 107 0))
        [.pending, .accept 107, .accept 20] = .ok xs ∧
      ((∀ x ∈ xs, Woken x) ↔
        ¬ TakesPart (List.replicate 107 0) 2 [.pending, .accept 107, .accept 20]) := by
  have h_stream : ∃ stream, VmessStream.new .zeros 3 (Vector.replicate 64 0) = .ok stream :=
    ⟨_, rfl⟩
  obtain ⟨stream, h_stream⟩ := h_stream
  have h_run : ∃ xs, calls .tagged .release [[1, 2], [1, 2]] (new stream (List.replicate 107 0))
      [.pending, .accept 107, .accept 20] = .ok xs := by
    cases h_stream
    exact ⟨_, rfl⟩
  obtain ⟨xs, h_run⟩ := h_run
  exact ⟨stream, xs, h_stream, h_run, wakes_iff h_run⟩

/-- One byte of the header is taken, and the call is pending. -/
theorem wakes_part : ¬ ∀ (A : Aead) (p : Profile) (stream : VmessStream) (header : List UInt8)
    (bufs : List (List UInt8)) (ws : List WriteEvent) (xs : List SenderPoll),
      calls A p bufs (new stream header) ws = .ok xs → ∀ x ∈ xs, Woken x := by
  intro h
  have h_stream : ∃ stream, VmessStream.new .zeros 3 (Vector.replicate 64 0) = .ok stream :=
    ⟨_, rfl⟩
  obtain ⟨stream, -⟩ := h_stream
  have h_woken := h .tagged .release stream (List.replicate 107 0) [[1, 2]] [.accept 1] _ rfl
  cases (h_woken _ List.mem_cons_self) rfl

end VmessSender

end V2ray
