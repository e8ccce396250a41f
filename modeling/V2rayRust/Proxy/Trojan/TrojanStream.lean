import V2rayRust.Lib.Poll
import V2rayRust.Proxy.Address

/-!
# Trojan UDP frames

The writer of `proxy/trojan/trojan_stream.rs`: a datagram is written as a head, which names its
target, and the payload. `priv_poll_write` does not look at how the write of the head ended, so
a call that returns `Ok` has written the whole frame exactly if no write below has failed
(`Progress.sent`).
-/

namespace V2ray

/-- The state of `priv_poll_write`: at the top of its loop, at the `co_await` of the head, in
the loop over the payload, or returned. -/
inductive TrojanStage
  | idle
  | header
  | payload
  | done
  deriving DecidableEq, Repr

/-- `TrojanUdpWriter`; what `write_res` holds between polls is in the stage. -/
structure TrojanUdpWriter where
  stage : TrojanStage
  buffer : List UInt8
  pos : ℕ
  dataLen : ℕ
  deriving DecidableEq

/-- What a poll of the writer leaves: the bytes in `out` have been taken below. -/
structure TrojanPoll where
  state : TrojanUdpWriter
  events : List WriteEvent
  result : Poll (Except String ℕ)
  out : List UInt8

/-- The head of a frame: address, length and `\r\n`. -/
def trojanHead (addr : Address) (data : List UInt8) : List UInt8 :=
  addr.writeToBuf ++ beBytes 2 data.length ++ [0x0D, 0x0A]

namespace TrojanUdpWriter

def new : TrojanUdpWriter := ⟨.idle, [], 0, 0⟩

/-- The loop over `write_data`. -/
def writePayload (w : TrojanUdpWriter) (ws : List WriteEvent) (data : List UInt8) : TrojanPoll :=
  let x := writeData data w.pos ws
  match x.result with
  | .pending => ⟨{ w with pos := x.pos, stage := .payload }, x.events, .pending, x.out⟩
  | .ready r =>
    ⟨{ w with pos := 0, stage := .idle }, x.events, .ready (r.map fun _ => w.dataLen), x.out⟩

/-- The `co_await` of `write_buffer_data`, and what comes after it. -/
def writeHead (w : TrojanUdpWriter) (ws : List WriteEvent) (data : List UInt8) : TrojanPoll :=
  let x := writeData w.buffer w.pos ws
  match x.result with
  | .pending => ⟨{ w with pos := x.pos, stage := .header }, x.events, .pending, x.out⟩
  -- an error is dropped here
  | .ready _ =>
    let y := writePayload { w with pos := 0, buffer := [] } x.events data
    { y with out := x.out ++ y.out }

/-- `priv_poll_write` -/
def privPollWrite (w : TrojanUdpWriter) (ws : List WriteEvent) (data : List UInt8)
    (addr : Address) : TrojanPoll :=
  match w.stage with
  | .idle =>
    if data = [] then ⟨{ w with dataLen := 0, stage := .done }, ws, .ready (.ok 0), []⟩
    else
      writeHead { w with dataLen := data.length, buffer := w.buffer ++ trojanHead addr data } ws
        data
  | .header => writeHead w ws data
  | .payload => writePayload w ws data
  | .done => ⟨w, ws, .ready (.error "unexpected end of file"), []⟩

/-! ### One datagram -/

/-- Between two datagrams. -/
def AtRest (w : TrojanUdpWriter) : Prop :=
  w.stage = .done ∨ w.stage = .idle ∧ w.buffer = [] ∧ w.pos = 0

/-- Within a datagram: `out` has been taken of it, and `failed` tells whether a write below has
failed so far. -/
inductive Within (addr : Address) (data : List UInt8) :
    TrojanUdpWriter → List UInt8 → Prop → Prop
  | header {w : TrojanUdpWriter} {failed : Prop} (stage_eq : w.stage = .header)
      (buffer_eq : w.buffer = trojanHead addr data) (fine : ¬ failed) :
      Within addr data w ((trojanHead addr data).take w.pos) failed
  | payload {w : TrojanUdpWriter} {failed : Prop} {head : List UInt8}
      (stage_eq : w.stage = .payload)
      (buffer_eq : w.buffer = []) (head_eq : head = trojanHead addr data ↔ ¬ failed) :
      Within addr data w (head ++ data.take w.pos) failed

/-- What a poll makes of a datagram of which `out` has been taken. -/
inductive Progress (addr : Address) (data out : List UInt8) (failed : Prop)
    (ws : List WriteEvent) (x : TrojanPoll) : Prop
  | pending {used : List WriteEvent} (ws_eq : ws = used ++ x.events)
      (result_eq : x.result = .pending)
      (within : Within addr data x.state (out ++ x.out) (failed ∨ ∃ w ∈ used, ¬ w.Works))
  | sent {used : List WriteEvent} {n : ℕ} (head : List UInt8) (ws_eq : ws = used ++ x.events)
      (result_eq : x.result = .ready (.ok n)) (rest : AtRest x.state)
      (out_eq : out ++ x.out = head ++ data)
      (head_eq : head = trojanHead addr data ↔ ¬ (failed ∨ ∃ w ∈ used, ¬ w.Works))
  | failed {message : String} (result_eq : x.result = .ready (.error message))
      (rest : AtRest x.state)

variable {addr : Address} {data out : List UInt8} {failed : Prop} {w : TrojanUdpWriter}
  {ws : List WriteEvent}

/-- Writes that work change nothing about what has failed. -/
theorem failed_iff {used : List WriteEvent} (h : ∀ w ∈ used, w.Works) :
    (failed ∨ ∃ w ∈ used, ¬ w.Works) ↔ failed := by
  refine or_iff_left ?_
  rintro ⟨w, h_w, h_fails⟩
  exact h_fails (h w h_w)

/-- A call that is at the payload goes on with it. -/
theorem progress_payload (head : List UInt8) (h_buffer : w.buffer = [])
    (h_out : out = head ++ data.take w.pos) (h_head : head = trojanHead addr data ↔ ¬ failed) :
    Progress addr data out failed ws (writePayload w ws data) := by
  unfold writePayload
  have h_used := writeUsed data w.pos ws
  generalize writeData data w.pos ws = x at h_used ⊢
  cases h_used with
  | @pending pos' out' used ws' ws_eq works _ out_eq =>
    refine .pending ws_eq rfl ?_
    rw [h_out, List.append_assoc, out_eq]
    exact .payload rfl h_buffer (by rw [failed_iff works]; exact h_head)
  | @done pos' out' used ws' ws_eq works out_eq =>
    refine .sent head ws_eq rfl (Or.inr ⟨rfl, h_buffer, rfl⟩) ?_
      (by rw [failed_iff works]; exact h_head)
    rw [h_out, List.append_assoc, out_eq]
  | failed => exact .failed rfl (Or.inr ⟨rfl, h_buffer, rfl⟩)

/-- Progress of the payload is progress of a datagram whose head has come first. -/
theorem Progress.after {out' : List UInt8} {used ws' : List WriteEvent} {x : TrojanPoll}
    (h_ws : ws = used ++ ws')
    (h : Progress addr data (out ++ out') (failed ∨ ∃ w ∈ used, ¬ w.Works) ws' x) :
    Progress addr data out failed ws { x with out := out' ++ x.out } := by
  have h_failed (used' : List WriteEvent) : ((failed ∨ ∃ w ∈ used, ¬ w.Works) ∨
      ∃ w ∈ used', ¬ w.Works) ↔ (failed ∨ ∃ w ∈ used ++ used', ¬ w.Works) := by
    simp only [List.mem_append, or_and_right, exists_or, or_assoc]
  cases h with
  | @pending used' ws_eq result_eq within =>
    refine .pending (by rw [h_ws, ws_eq, List.append_assoc]) result_eq ?_
    rw [← h_failed, ← List.append_assoc]
    exact within
  | @sent used' n head ws_eq result_eq rest out_eq head_eq =>
    refine .sent head (by rw [h_ws, ws_eq, List.append_assoc]) result_eq rest ?_ ?_
    · rw [← List.append_assoc]
      exact out_eq
    · rw [← h_failed]
      exact head_eq
  | failed result_eq rest => exact .failed result_eq rest

/-- A call that is at the header goes on with it. -/
theorem progress_head (h_buffer : w.buffer = trojanHead addr data)
    (h_out : out = (trojanHead addr data).take w.pos) (h_fine : ¬ failed) :
    Progress addr data out failed ws (writeHead w ws data) := by
  unfold writeHead
  have h_used := writeUsed w.buffer w.pos ws
  generalize writeData w.buffer w.pos ws = x at h_used ⊢
  rw [h_buffer] at h_used
  cases h_used with
  | @pending pos' out' used ws' ws_eq works _ out_eq =>
    refine .pending ws_eq rfl ?_
    rw [h_out, out_eq]
    exact .header rfl h_buffer (by rw [failed_iff works]; exact h_fine)
  | @done pos' out' used ws' ws_eq works out_eq =>
    refine Progress.after ws_eq (progress_payload (trojanHead addr data) rfl ?_ ?_)
    · rw [h_out, out_eq]
      exact (List.append_nil _).symm
    · rw [failed_iff works]
      exact iff_of_true rfl h_fine
  | @failed message pos' out' used ws' ws_eq fails lt out_eq =>
    -- the head is cut, and the payload follows all the same
    refine Progress.after ws_eq (progress_payload ((trojanHead addr data).take pos') rfl ?_ ?_)
    · rw [h_out, out_eq]
      exact (List.append_nil _).symm
    · refine iff_of_false (fun h => ?_) (not_not.mpr (Or.inr fails))
      have h_len := congrArg List.length h
      rw [List.length_take, Nat.min_eq_left (Nat.le_of_lt lt)] at h_len
      exact Nat.ne_of_lt lt h_len

/-- The first poll of a datagram. -/
theorem progress_of_rest (h : AtRest w) (h_data : data ≠ []) :
    Progress addr data [] False ws (w.privPollWrite ws data addr) := by
  unfold privPollWrite
  rcases h with h_stage | ⟨h_stage, h_buffer, h_pos⟩
  · rw [h_stage]
    exact .failed rfl (Or.inl h_stage)
  · rw [h_stage]
    dsimp only
    rw [if_neg h_data, h_buffer]
    refine progress_head rfl ?_ id
    rw [h_pos]
    rfl

/-- A later poll of it. -/
theorem progress_of_within (h : Within addr data w out failed) :
    Progress addr data out failed ws (w.privPollWrite ws data addr) := by
  unfold privPollWrite
  cases h with
  | header stage_eq buffer_eq fine =>
    rw [stage_eq]
    exact progress_head buffer_eq rfl fine
  | payload stage_eq buffer_eq head_eq =>
    rw [stage_eq]
    exact progress_payload _ buffer_eq rfl head_eq

end TrojanUdpWriter

end V2ray
