import V2rayRust.Lib.WriteFault
import V2rayRust.Proxy.Trojan.TrojanStream

/-!
# Failed writes of the Trojan UDP writer

What `poll_send_to` tells of writes that fail, over all the polls of a datagram. The result of the
write of the header is awaited and then overwritten by that of the payload, so after a failure
within the header the payload is written all the same, unless its first write fails as well
(`sendTo_reports_iff`).

A call is either still at the header or at the payload. How one at the header ends is `HeadCall`: it
is pending, or the header is out and the call is one of the payload, or the header has failed. The
question whether the schedule fails within the header and not at the first write after it
(`FailsAlone`) is handed on from call to call, so the induction over the calls only has to look at
the last one.
-/

namespace V2ray

/-- A call of `poll_send_to`, with the bytes of the header and of the payload that were taken in it,
and the answers that its calls of `poll_write` got. -/
structure SendCall where
  poll : TrojanPoll
  header : List UInt8
  payload : List UInt8
  answers : List WriteEvent

namespace TrojanUdpWriter

/-- A call that is at the payload. -/
def callPayload (w : TrojanUdpWriter) (ws : List WriteEvent) (data : List UInt8) : SendCall :=
  let x := writePayload w ws data
  ⟨x, [], x.out, writeAnswers data w.pos ws⟩

/-- A call that is at the header. -/
def callHead (w : TrojanUdpWriter) (ws : List WriteEvent) (data : List UInt8) : SendCall :=
  let x := writeData w.buffer w.pos ws
  let answers := writeAnswers w.buffer w.pos ws
  match x.result with
  | .pending => ⟨writeHead w ws data, x.out, [], answers⟩
  | .ready _ =>
    let y := callPayload { w with pos := 0, buffer := [] } x.events data
    ⟨writeHead w ws data, x.out, y.payload, answers ++ y.answers⟩

/-- `poll_send_to` -/
def pollSendTo (w : TrojanUdpWriter) (ws : List WriteEvent) (data : List UInt8)
    (addr : Address) : SendCall :=
  match w.stage with
  | .idle =>
    if data = [] then ⟨w.privPollWrite ws data addr, [], [], []⟩
    else
      callHead { w with dataLen := data.length, buffer := w.buffer ++ trojanHead addr data } ws data
  | .header => callHead w ws data
  | .payload => callPayload w ws data
  | .done => ⟨w.privPollWrite ws data addr, [], [], []⟩

/-- The calls for one datagram, until one of them is ready. -/
def sendCalls (data : List UInt8) (addr : Address) :
    ℕ → TrojanUdpWriter → List WriteEvent → List SendCall
  | 0, _, _ => []
  | polls + 1, w, ws =>
    let x := w.pollSendTo ws data addr
    match x.poll.result with
    | .pending => x :: sendCalls data addr polls x.poll.state x.poll.events
    | .ready _ => [x]

/-- The call `x`, and those that come after it. -/
def callsFrom (data : List UInt8) (addr : Address) (polls : ℕ) (x : SendCall) : List SendCall :=
  match x.poll.result with
  | .pending => x :: sendCalls data addr polls x.poll.state x.poll.events
  | .ready _ => [x]

/-- The writers that may be given a datagram: new ones, and those whose last datagram, if it was
polled until it was ready, was any other. -/
inductive Settled : TrojanUdpWriter → Prop
  | new : Settled .new
  | sent {w : TrojanUdpWriter} {data : List UInt8} {addr : Address} {polls : ℕ}
      {ws : List WriteEvent} {x : SendCall} {r : Except String ℕ} (before : Settled w)
      (last : (sendCalls data addr polls w ws).getLast? = some x)
      (ready : x.poll.result = .ready r) : Settled x.poll.state

/-- What the calls for a datagram should be like, when `h` has been taken of its header and `d` of
its payload: the call that sees a write fail is an error, no byte of the payload comes before the
whole header, and what is `Ok` has been written. -/
def Reports (header data : List UInt8) : List UInt8 → List UInt8 → List SendCall → Prop
  | _, _, [] => True
  | h, d, x :: calls =>
    ((∃ a ∈ x.answers, ¬ a.Works) → ∃ message, x.poll.result = .ready (.error message)) ∧
    (x.payload ≠ [] → h ++ x.header = header) ∧
    (∀ n, x.poll.result = .ready (.ok n) → h ++ x.header = header ∧ d ++ x.payload = data) ∧
    Reports header data (h ++ x.header) (d ++ x.payload) calls

/-- A write of the header fails, and the write after it does not. -/
def FailsAlone (polls owed : ℕ) (ws : List WriteEvent) : Prop :=
  ∃ after, BreaksOff polls owed ws after ∧ ∀ e ∈ after.head?, e.Works

variable {addr : Address} {data h d header : List UInt8} {w : TrojanUdpWriter}
  {ws : List WriteEvent} {polls : ℕ}

/-! ### Calls -/

theorem callHead_poll (w : TrojanUdpWriter) (ws : List WriteEvent) (data : List UInt8) :
    (callHead w ws data).poll = writeHead w ws data := by
  unfold callHead
  dsimp only
  split <;> rfl

/-- The calls are those of `priv_poll_write`. -/
theorem pollSendTo_poll (w : TrojanUdpWriter) (ws : List WriteEvent) (data : List UInt8)
    (addr : Address) : (w.pollSendTo ws data addr).poll = w.privPollWrite ws data addr := by
  unfold pollSendTo privPollWrite
  cases w.stage with
  | idle =>
    dsimp only
    split
    · rfl
    · exact callHead_poll _ _ _
  | header => exact callHead_poll _ _ _
  | payload => rfl
  | done => rfl

/-- How a call that has come to the payload ends: it has met a failure only if it is an error. -/
inductive PayloadCall (data : List UInt8) (pos : ℕ) : SendCall → Prop
  | pending {x : SendCall} (result_eq : x.poll.result = .pending)
      (works : ∀ a ∈ x.answers, a.Works) (stage_eq : x.poll.state.stage = .payload)
      (out_eq : data.take pos ++ x.payload = data.take x.poll.state.pos) : PayloadCall data pos x
  | sent {x : SendCall} {n : ℕ} (result_eq : x.poll.result = .ready (.ok n))
      (works : ∀ a ∈ x.answers, a.Works) (out_eq : data.take pos ++ x.payload = data) :
      PayloadCall data pos x
  | failed {x : SendCall} {message : String}
      (result_eq : x.poll.result = .ready (.error message)) : PayloadCall data pos x

/-- How a call at the payload ends, by its writes. -/
theorem payloadCall (w : TrojanUdpWriter) (ws : List WriteEvent) (data : List UInt8) :
    PayloadCall data w.pos (callPayload w ws data) := by
  unfold callPayload writePayload
  have h_write := writeBreaks data w.pos ws
  generalize writeData data w.pos ws = x at h_write ⊢
  generalize writeAnswers data w.pos ws = answers at h_write ⊢
  cases h_write with
  | pending works _ out_eq _ => exact .pending rfl works rfl out_eq
  | done works out_eq _ => exact .sent rfl works out_eq
  | failed _ _ _ _ => exact .failed rfl

/-- The first call of the payload, when the header has failed: it is an error and writes nothing
only if its first write fails. -/
theorem payload_after_failure (h_data : data ≠ []) (h_pos : w.pos = 0) :
    ((∃ message, (callPayload w ws data).poll.result = .ready (.error message)) ∧
      (callPayload w ws data).payload = []) ↔ ¬ ∀ e ∈ ws.head?, e.Works := by
  have h_lt : 0 < data.length := List.length_pos_iff.mpr h_data
  unfold callPayload writePayload
  rw [h_pos]
  -- no answer: the poll is pending, so it is no error
  cases ws with
  | nil =>
    rw [writeData, if_pos h_lt]
    simp
  | cons e ws =>
    rw [writeData.eq_def]
    dsimp only
    rw [if_pos h_lt]
    cases e with
    -- pending
    | pending => simp [WriteEvent.Works]
    -- a failure of the first write is an error, and nothing is out
    | err message => simp [WriteEvent.Works, Except.map]
    | accept n =>
      dsimp only
      rcases Nat.eq_zero_or_pos n with rfl | h_n
      · -- `Ok(0)` is the error `WriteZero`
        simp [WriteEvent.Works, Except.map]
      · -- it takes a byte, so the payload is not empty
        have h_taken : (data.drop 0).take n ≠ [] := by
          rw [← List.length_pos_iff, List.length_take, List.drop_zero]
          exact Nat.lt_min.mpr ⟨h_n, h_lt⟩
        rw [if_neg h_taken]
        refine iff_of_false ?_ ?_
        · rintro ⟨-, h_nil⟩
          generalize writeData data _ ws = x at h_nil
          refine h_taken (List.append_eq_nil_iff.mp (?_ : _ ++ x.out = [])).1
          split at h_nil <;> exact h_nil
        · simpa [WriteEvent.Works] using Nat.ne_of_gt h_n

/-- How a call that is at the header ends. -/
inductive HeadCall (header data : List UInt8) (pos : ℕ) (ws : List WriteEvent) : SendCall → Prop
  | pending {x : SendCall} (result_eq : x.poll.result = .pending) (payload_eq : x.payload = [])
      (works : ∀ a ∈ x.answers, a.Works) (stage_eq : x.poll.state.stage = .header)
      (buffer_eq : x.poll.state.buffer = header)
      (out_eq : header.take pos ++ x.header = header.take x.poll.state.pos)
      (alone_iff : ∀ polls, FailsAlone (polls + 1) (header.length - pos) ws ↔
        FailsAlone polls (header.length - x.poll.state.pos) x.poll.events) :
      HeadCall header data pos ws x
  | whole {x : SendCall} (call : PayloadCall data 0 x)
      (out_eq : header.take pos ++ x.header = header)
      (fine : ∀ polls, ¬ FailsAlone polls (header.length - pos) ws) : HeadCall header data pos ws x
  | broken {x : SendCall} (fails : ∃ a ∈ x.answers, ¬ a.Works)
      (cut : header.take pos ++ x.header ≠ header)
      (alone_iff : ∀ polls, FailsAlone (polls + 1) (header.length - pos) ws ↔
        ¬ ((∃ message, x.poll.result = .ready (.error message)) ∧ x.payload = [])) :
      HeadCall header data pos ws x

/-- Writes that worked before the call change nothing about how it ends. -/
theorem PayloadCall.after {pos : ℕ} {x y : SendCall} {answers : List WriteEvent}
    (h_call : PayloadCall data pos y) (h_works : ∀ a ∈ answers, a.Works)
    (h_answers : x.answers = answers ++ y.answers) (h_payload : x.payload = y.payload)
    (h_result : x.poll.result = y.poll.result) (h_state : x.poll.state = y.poll.state) :
    PayloadCall data pos x := by
  have h_all (h : ∀ a ∈ y.answers, a.Works) : ∀ a ∈ x.answers, a.Works := by
    rw [h_answers]
    exact List.forall_mem_append.mpr ⟨h_works, h⟩
  cases h_call with
  | pending result_eq works stage_eq out_eq =>
    refine .pending (h_result.trans result_eq) (h_all works) (by rw [h_state]; exact stage_eq) ?_
    rw [h_state, h_payload]
    exact out_eq
  | sent result_eq works out_eq =>
    exact .sent (h_result.trans result_eq) (h_all works) (by rw [h_payload]; exact out_eq)
  | failed result_eq => exact .failed (h_result.trans result_eq)

/-- How a call that is at the header ends. -/
theorem headCall (h_buffer : w.buffer = header) (h_data : data ≠ []) :
    HeadCall header data w.pos ws (callHead w ws data) := by
  have h_write := writeBreaks w.buffer w.pos ws
  unfold callHead writeHead
  generalize writeData w.buffer w.pos ws = x at h_write ⊢
  generalize writeAnswers w.buffer w.pos ws = answers at h_write ⊢
  rw [h_buffer] at h_write ⊢
  cases h_write with
  -- the header goes on at the next call, with the same question
  | pending works _ out_eq breaks_iff =>
    refine .pending rfl rfl works rfl rfl out_eq fun polls => ?_
    exact exists_congr fun after => and_congr_left' (breaks_iff polls after)
  -- the header is out, and the payload follows in the same call
  | @done ws' _ _ works out_eq whole =>
    have h_call := payloadCall { w with pos := 0, buffer := [] } ws' data
    refine .whole (h_call.after works rfl rfl rfl rfl) out_eq ?_
    rintro polls ⟨after, h_breaks, -⟩
    exact whole polls after h_breaks
  -- the header has failed, and its result is overwritten by that of the payload
  | @failed ws' _ _ _ fails lt out_eq breaks_iff =>
    obtain ⟨a, h_a, h_fails⟩ := fails
    refine .broken ⟨a, List.mem_append_left _ h_a, h_fails⟩ ?_ fun polls => ?_
    · -- the header is cut where the write has failed
      intro h_whole
      have h_len := congrArg List.length (out_eq.symm.trans h_whole)
      rw [List.length_take, Nat.min_eq_left (Nat.le_of_lt lt)] at h_len
      exact Nat.ne_of_lt lt h_len
    · have h_alone : FailsAlone (polls + 1) (header.length - w.pos) ws ↔
          ∀ e ∈ ws'.head?, e.Works := by
        unfold FailsAlone
        simp only [breaks_iff, exists_eq_left]
      rw [h_alone]
      exact (not_iff_comm.mp (payload_after_failure h_data rfl).symm).symm

/-! ### Datagrams -/

section Reports

variable {x : SendCall} {calls : List SendCall} {pos : ℕ}

/-- A call that is pending tells nothing, so it must not have seen a failure. -/
theorem reports_pending_iff (h_result : x.poll.result = .pending) :
    Reports header data h d (x :: calls) ↔ (∀ a ∈ x.answers, a.Works) ∧
      (x.payload ≠ [] → h ++ x.header = header) ∧
      Reports header data (h ++ x.header) (d ++ x.payload) calls := by
  simp [Reports, h_result]

/-- A call that is an error is the last one. -/
theorem reports_error_iff {message : String} (h_result : x.poll.result = .ready (.error message)) :
    Reports header data h d [x] ↔ (x.payload ≠ [] → h ++ x.header = header) := by
  simp [Reports, h_result]

theorem reports_ok_iff {n : ℕ} (h_result : x.poll.result = .ready (.ok n)) :
    Reports header data h d [x] ↔ (∀ a ∈ x.answers, a.Works) ∧ h ++ x.header = header ∧
      d ++ x.payload = data := by
  simp only [Reports, h_result, Poll.ready.injEq, reduceCtorEq, exists_false, imp_false, not_exists,
    not_and, not_not, and_true, Except.ok.injEq, forall_eq']
  exact and_congr_right' (and_iff_right_of_imp fun h_whole _ => h_whole.1)

theorem callsFrom_of_ready {r : Except String ℕ} (h_result : x.poll.result = .ready r) :
    callsFrom data addr polls x = [x] := by
  unfold callsFrom
  rw [h_result]

/-- A call that is ready is the last one, and what it says is so. -/
theorem reports_of_ready {r : Except String ℕ} (h_call : PayloadCall data pos x)
    (h_header : h ++ x.header = header) (h_result : x.poll.result = .ready r) :
    Reports header data h (data.take pos) (callsFrom data addr polls x) := by
  rw [callsFrom_of_ready h_result]
  cases h_call with
  | pending result_eq _ _ _ => cases result_eq.symm.trans h_result
  | sent result_eq works out_eq =>
    exact (reports_ok_iff result_eq).mpr ⟨works, h_header, out_eq⟩
  | failed result_eq => exact (reports_error_iff result_eq).mpr fun _ => h_header

/-- **Once the header has been written**, all is told. -/
theorem reports_of_payloadCall (h_call : PayloadCall data pos x)
    (h_header : h ++ x.header = header) :
    Reports header data h (data.take pos) (callsFrom data addr polls x) := by
  -- on the polls; every further call is at the payload again
  induction polls generalizing x pos h with
  | zero =>
    cases h_call with
    | pending result_eq works _ _ =>
      unfold callsFrom
      rw [result_eq]
      exact (reports_pending_iff result_eq).mpr ⟨works, fun _ => h_header, trivial⟩
    | sent result_eq works out_eq =>
      exact reports_of_ready (.sent result_eq works out_eq) h_header result_eq
    | failed result_eq => exact reports_of_ready (.failed result_eq) h_header result_eq
  | succ polls ih =>
    cases h_call with
    | pending result_eq works stage_eq out_eq =>
      unfold callsFrom
      rw [result_eq]
      refine (reports_pending_iff result_eq).mpr ⟨works, fun _ => h_header, ?_⟩
      have h_next : x.poll.state.pollSendTo x.poll.events data addr =
          callPayload x.poll.state x.poll.events data := by
        unfold pollSendTo
        rw [stage_eq]
      show Reports header data _ _ (callsFrom data addr polls (pollSendTo _ _ data addr))
      rw [h_next, h_header, out_eq]
      exact ih (payloadCall _ _ data) (List.append_nil header)
    | sent result_eq works out_eq =>
      exact reports_of_ready (.sent result_eq works out_eq) h_header result_eq
    | failed result_eq => exact reports_of_ready (.failed result_eq) h_header result_eq

/-- A header that has been cut is told only by an error, and only if nothing comes after it. -/
theorem reports_cut_iff (h_fails : ∃ a ∈ x.answers, ¬ a.Works) (h_cut : h ++ x.header ≠ header) :
    Reports header data h d (callsFrom data addr polls x) ↔
      (∃ message, x.poll.result = .ready (.error message)) ∧ x.payload = [] := by
  have h_not : ¬ ∀ a ∈ x.answers, a.Works := by simpa using h_fails
  unfold callsFrom
  match h_result : x.poll.result with
  | .pending => simp [reports_pending_iff h_result, h_not]
  | .ready (.ok n) => simp [reports_ok_iff h_result, h_not]
  | .ready (.error message) =>
    dsimp only
    rw [reports_error_iff h_result]
    simpa using not_imp_comm.trans (imp_iff_right h_cut)

/-- **While the header is written**, all is told exactly if no write of it fails alone. -/
theorem reports_of_headCall_iff (h_data : data ≠ []) (h_call : HeadCall header data pos ws x) :
    Reports header data (header.take pos) [] (callsFrom data addr polls x) ↔
      ¬ FailsAlone (polls + 1) (header.length - pos) ws := by
  -- on the polls; a call that is pending leaves the question to the next one
  induction polls generalizing x pos ws with
  | zero =>
    cases h_call with
    | pending result_eq payload_eq works _ _ _ alone_iff =>
      have h_none : ¬ FailsAlone 0 (header.length - x.poll.state.pos) x.poll.events := by
        rintro ⟨after, h_breaks, -⟩
        exact absurd h_breaks.polls_pos (Nat.lt_irrefl 0)
      rw [alone_iff]
      unfold callsFrom
      rw [result_eq]
      refine iff_of_true ?_ h_none
      exact (reports_pending_iff result_eq).mpr ⟨works, fun h_ne => absurd payload_eq h_ne, trivial⟩
    | whole call out_eq fine => exact iff_of_true (reports_of_payloadCall call out_eq) (fine _)
    | broken fails cut alone_iff => rw [reports_cut_iff fails cut, alone_iff, not_not]
  | succ polls ih =>
    cases h_call with
    | pending result_eq payload_eq works stage_eq buffer_eq out_eq alone_iff =>
      rw [alone_iff]
      unfold callsFrom
      rw [result_eq]
      dsimp only
      rw [reports_pending_iff result_eq, payload_eq, out_eq]
      have h_next : x.poll.state.pollSendTo x.poll.events data addr =
          callHead x.poll.state x.poll.events data := by
        unfold pollSendTo
        rw [stage_eq]
      have h_second : HeadCall header data x.poll.state.pos x.poll.events
          (callHead x.poll.state x.poll.events data) := headCall buffer_eq h_data
      have h_rest := ih h_second
      rw [← h_next] at h_rest
      refine Iff.trans ?_ h_rest
      exact ⟨fun h => h.2.2, fun h => ⟨works, fun h_ne => absurd rfl h_ne, h⟩⟩
    | whole call out_eq fine => exact iff_of_true (reports_of_payloadCall call out_eq) (fine _)
    | broken fails cut alone_iff => rw [reports_cut_iff fails cut, alone_iff, not_not]

end Reports

/-! ### Writers -/

theorem callsFrom_ne_nil (x : SendCall) : callsFrom data addr polls x ≠ [] := by
  unfold callsFrom
  split <;> exact List.cons_ne_nil _ _

theorem last_of_ready {x y : SendCall} {r : Except String ℕ} (h_result : x.poll.result = .ready r)
    (h_last : (callsFrom data addr polls x).getLast? = some y) : y = x := by
  rw [callsFrom_of_ready h_result] at h_last
  exact (Option.some.inj h_last).symm

/-- The calls of a datagram leave the writer between two datagrams when one of them is ready. -/
theorem atRest_of_progress {failed : Prop} {out : List UInt8} {x y : SendCall}
    {r : Except String ℕ} (h_progress : Progress addr data out failed ws x.poll)
    (h_last : (callsFrom data addr polls x).getLast? = some y)
    (h_ready : y.poll.result = .ready r) : AtRest y.poll.state := by
  induction polls generalizing x out failed ws with
  | zero =>
    cases h_progress with
    | pending _ result_eq _ =>
      -- a last call that is pending is not ready
      unfold callsFrom at h_last
      rw [result_eq] at h_last
      have h_eq : some x = some y := h_last
      cases h_eq
      rw [result_eq] at h_ready
      cases h_ready
    | sent _ _ result_eq rest _ _ => exact last_of_ready result_eq h_last ▸ rest
    | failed result_eq rest => exact last_of_ready result_eq h_last ▸ rest
  | succ polls ih =>
    cases h_progress with
    | pending _ result_eq within =>
      unfold callsFrom at h_last
      rw [result_eq] at h_last
      have h_next : (callsFrom data addr polls
          (x.poll.state.pollSendTo x.poll.events data addr)).getLast? = some y := by
        rw [← h_last]
        exact (List.getLast?_cons_of_ne_nil (callsFrom_ne_nil _)).symm
      have h_within : Progress addr data _ _ x.poll.events
          (x.poll.state.privPollWrite x.poll.events data addr) := progress_of_within within
      rw [← pollSendTo_poll] at h_within
      exact ih h_within h_next
    | sent _ _ result_eq rest _ _ => exact last_of_ready result_eq h_last ▸ rest
    | failed result_eq rest => exact last_of_ready result_eq h_last ▸ rest

/-- A datagram without a payload is answered at once, and ends the generator. -/
theorem pollSendTo_nil (h : AtRest w) : (w.pollSendTo ws [] addr).poll.state.stage = .done ∧
    ∃ r, (w.pollSendTo ws [] addr).poll.result = .ready r := by
  rw [pollSendTo_poll]
  unfold privPollWrite
  rcases h with h_stage | ⟨h_stage, -, -⟩
  · rw [h_stage]
    exact ⟨h_stage, _, rfl⟩
  · rw [h_stage]
    exact ⟨rfl, _, rfl⟩

/-- A writer that may be given a datagram has nothing left of the one before. -/
theorem Settled.atRest (h : Settled w) : AtRest w := by
  induction h with
  | new => exact .inr ⟨rfl, rfl, rfl⟩
  | @sent w data addr polls ws x r _ last ready ih =>
    cases polls with
    | zero => cases last
    | succ polls =>
      have h_last :
          (callsFrom data addr polls (w.pollSendTo ws data addr)).getLast? = some x := last
      by_cases h_data : data = []
      · subst h_data
        obtain ⟨h_done, r', h_ready⟩ : (w.pollSendTo ws [] addr).poll.state.stage = .done ∧
            ∃ r, (w.pollSendTo ws [] addr).poll.result = .ready r := pollSendTo_nil ih
        exact last_of_ready h_ready h_last ▸ .inl h_done
      · have h_progress : Progress addr data [] False ws (w.privPollWrite ws data addr) :=
          progress_of_rest ih h_data
        rw [← pollSendTo_poll] at h_progress
        exact atRest_of_progress h_progress h_last ready

/-- **Failures of a datagram.** Over every schedule of writes and any number of polls, all that goes
wrong is told if and only if the payload is not empty and no write of the header fails without the
next write failing as well, or the writer has been ended by an empty datagram before. -/
theorem sendTo_reports_iff (h : Settled w) (addr : Address) (data : List UInt8)
    (ws : List WriteEvent) (polls : ℕ) :
    Reports (trojanHead addr data) data [] [] (sendCalls data addr (polls + 1) w ws) ↔
      w.stage = .done ∨
        data ≠ [] ∧ ¬ FailsAlone (polls + 1) (trojanHead addr data).length ws := by
  show Reports _ _ _ _ (callsFrom data addr polls (w.pollSendTo ws data addr)) ↔ _
  rcases h.atRest with h_stage | ⟨h_stage, h_buffer, h_pos⟩
  · -- nothing is written any more, and every call is an error
    refine iff_of_true ?_ (.inl h_stage)
    have h_call : w.pollSendTo ws data addr =
        ⟨⟨w, ws, .ready (.error "unexpected end of file"), []⟩, [], [], []⟩ := by
      unfold pollSendTo privPollWrite
      rw [h_stage]
    rw [h_call]
    exact (reports_error_iff rfl).mpr fun h_ne => absurd rfl h_ne
  · have h_idle : w.stage ≠ .done := by
      rw [h_stage]
      exact TrojanStage.noConfusion
    rw [or_iff_right h_idle]
    by_cases h_data : data = []
    · -- `Ok(0)`, and no header
      refine iff_of_false ?_ fun h_cond => h_cond.1 h_data
      subst h_data
      have h_call : w.pollSendTo ws [] addr =
          ⟨⟨{ w with dataLen := 0, stage := .done }, ws, .ready (.ok 0), []⟩, [], [], []⟩ := by
        unfold pollSendTo privPollWrite
        rw [h_stage]
        rfl
      rw [h_call]
      intro h_reports
      have h_header := ((reports_ok_iff rfl).mp h_reports).2.1
      have h_len := congrArg List.length h_header
      simp [trojanHead] at h_len
    · -- the head is made at the first call, and stays the same in the later ones
      have h_call : w.pollSendTo ws data addr = callHead
          { w with dataLen := data.length, buffer := trojanHead addr data } ws data := by
        unfold pollSendTo
        rw [h_stage, h_buffer]
        exact if_neg h_data
      have h_first : HeadCall (trojanHead addr data) data w.pos ws (w.pollSendTo ws data addr) := by
        rw [h_call]
        exact headCall (w := { w with dataLen := data.length, buffer := trojanHead addr data }) rfl
          h_data
      have h_iff : Reports (trojanHead addr data) data ((trojanHead addr data).take w.pos) []
          (callsFrom data addr polls (w.pollSendTo ws data addr)) ↔
            ¬ FailsAlone (polls + 1) ((trojanHead addr data).length - w.pos) ws :=
        reports_of_headCall_iff h_data h_first
      -- at the first call nothing of the header is out
      rw [h_pos] at h_iff
      exact h_iff.trans (and_iff_right h_data).symm

/-- A datagram of one byte, taken in two writes. -/
theorem sendTo_reports_two :
    Reports (trojanHead (.socketAddress (.v4 0x01020304 53)) [7]) [7] [] []
      (sendCalls [7] (.socketAddress (.v4 0x01020304 53)) 1 .new [.accept 11, .accept 1]) := by
  refine (sendTo_reports_iff .new (.socketAddress (.v4 0x01020304 53)) [7]
    [.accept 11, .accept 1] 0).mpr (.inr ⟨by decide, ?_⟩)
  rintro ⟨after, h_breaks, -⟩
  exact absurd ((breaksOff_accept_iff (by decide)).mp h_breaks).1 (by decide)

/-- The header fails at its first byte, and the payload is written and reported as sent. -/
theorem sendTo_reports_lost :
    ¬ ∀ (w : TrojanUdpWriter) (addr : Address) (data : List UInt8) (ws : List WriteEvent)
        (polls : ℕ), Settled w → data ≠ [] →
      Reports (trojanHead addr data) data [] [] (sendCalls data addr (polls + 1) w ws) := by
  intro h
  have h_reports := h .new (.socketAddress (.v4 0x01020304 53)) [7] [.err "reset", .accept 1] 0 .new
    (by decide)
  obtain ⟨message, h_result⟩ := h_reports.1 ⟨.err "reset", List.mem_cons_self, id⟩
  have h_sent : Poll.ready (.ok 1) = (.ready (.error message) : Poll (Except String ℕ)) := h_result
  cases h_sent

end TrojanUdpWriter

end V2ray
