import V2rayRust.Lib.ChunkWriter
import V2rayRust.Lib.WriteFault

/-!
# The chunk of a slice

A caller that polls a writer of chunks with one slice until the poll is ready, over a stream that
may fail: what has been written when it is ready with a length is one chunk, of as much of the slice
as a chunk may hold, and that is the length (`chunkOut_pollWrite`).
-/

namespace V2ray

open ChunkWriter

variable {σ : Type} {fmt : ChunkFormat σ} {w : ChunkWriter σ} {ws : List WriteEvent} {c : σ}
  {data out : List UInt8} {x : WritePoll σ}

/-- A writer between two slices. -/
inductive ChunkWriter.AtRest (w : ChunkWriter σ) : Prop
  | idle (stage_eq : w.stage = .idle) (buffer_eq : w.buffer = [])
  | done (stage_eq : w.stage = .done)

/-- `out` has been written of the chunk of a slice, by a writer whose cipher was `c` before. -/
inductive ChunkOut (fmt : ChunkFormat σ) (c : σ) (data : List UInt8) (w : ChunkWriter σ) :
    List UInt8 → Prop
  | idle (stage_eq : w.stage = .idle) (buffer_eq : w.buffer = []) (cipher_eq : w.cipher = c) :
      ChunkOut fmt c data w []
  | writing {c' : σ} (stage_eq : w.stage = .writing)
      (dataLen_eq : w.dataLen = (data.take fmt.limit).length)
      (chunk_eq : fmt.chunk c (data.take fmt.limit) = .ok (c', w.buffer)) :
      ChunkOut fmt c data w (w.buffer.take w.pos)
  | done (stage_eq : w.stage = .done) : ChunkOut fmt c data w []

/-- What a poll leaves when `out` was written before it. -/
inductive ChunkPoll (fmt : ChunkFormat σ) (c : σ) (data out : List UInt8) (x : WritePoll σ) : Prop
  | pending (result_eq : x.result = .pending) (chunk : ChunkOut fmt c data x.state (out ++ x.out))
  | whole {c' : σ} (result_eq : x.result = .ready (.ok (data.take fmt.limit).length))
      (chunk_eq : fmt.chunk c (data.take fmt.limit) = .ok (c', out ++ x.out))
      (atRest : x.state.AtRest)
  | ended (result_eq : x.result = .ready (.ok 0)) (nil : data = []) (atRest : x.state.AtRest)
  | failed {message : String} (result_eq : x.result = .ready (.error message))
      (atRest : x.state.AtRest)

theorem ChunkWriter.AtRest.chunkOut (h : w.AtRest) (fmt : ChunkFormat σ) (data : List UInt8) :
    ChunkOut fmt w.cipher data w [] := by
  cases h with
  | idle stage_eq buffer_eq => exact .idle stage_eq buffer_eq rfl
  | done stage_eq => exact .done stage_eq

/-- Pushing the chunk of a slice is a poll of that slice. -/
theorem chunkPoll_push {c' : σ} (h_len : w.dataLen = (data.take fmt.limit).length)
    (h_chunk : fmt.chunk c (data.take fmt.limit) = .ok (c', w.buffer)) (ws : List WriteEvent) :
    ChunkPoll fmt c data (w.buffer.take w.pos) (push w ws) := by
  have h_call := writeBreaks w.buffer w.pos ws
  unfold push
  dsimp only
  generalize writeData w.buffer w.pos ws = x at h_call ⊢
  cases h_call with
  | @pending ws' pos' taken works lt out_eq breaks_iff =>
    refine .pending rfl ?_
    dsimp only
    rw [out_eq]
    exact .writing (w := { w with pos := pos', stage := .writing }) rfl h_len h_chunk
  | @done ws' pos' taken works out_eq whole =>
    have h_out : fmt.chunk c (data.take fmt.limit) = .ok (c', w.buffer.take w.pos ++ taken) := by
      rw [out_eq, h_chunk]
    exact .whole (congrArg (fun n => Poll.ready (Except.ok n)) h_len) h_out (.idle rfl rfl)
  | failed fails lt out_eq breaks_iff => exact .failed rfl (.idle rfl rfl)

/-- **A poll with the slice.** -/
theorem chunkOut_pollWrite (h : ChunkOut fmt c data w out)
    (h_poll : pollWrite fmt w ws data = .ok x) : ChunkPoll fmt c data out x := by
  unfold pollWrite at h_poll
  cases h with
  | idle stage_eq buffer_eq cipher_eq =>
    rw [stage_eq] at h_poll
    dsimp only at h_poll
    split at h_poll
    · next h_ends =>
      cases h_poll
      exact .ended rfl h_ends.2 (.done rfl)
    · obtain ⟨⟨c', chunk⟩, h_chunk, h_poll⟩ := bind_eq_ok.mp h_poll
      cases h_poll
      rw [cipher_eq] at h_chunk
      -- the chunk is all that the buffer holds
      rw [buffer_eq, List.nil_append]
      let w' : ChunkWriter σ := ⟨c', chunk, 0, (data.take fmt.limit).length, .writing⟩
      have h_push : ChunkPoll fmt c data [] (push w' ws) :=
        chunkPoll_push (w := w') rfl h_chunk ws
      cases h_push with
      | pending result_eq chunk => exact .pending result_eq chunk
      | whole result_eq chunk_eq atRest => exact .whole result_eq chunk_eq atRest
      | ended result_eq nil atRest => exact .ended result_eq nil atRest
      | failed result_eq atRest => exact .failed result_eq atRest
  | writing stage_eq dataLen_eq chunk_eq =>
    rw [stage_eq] at h_poll
    cases h_poll
    exact chunkPoll_push dataLen_eq chunk_eq ws
  | done stage_eq =>
    rw [stage_eq] at h_poll
    cases h_poll
    exact .failed rfl (.done stage_eq)

end V2ray
