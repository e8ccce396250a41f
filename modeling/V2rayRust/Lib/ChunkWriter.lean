import Mathlib.Data.List.Nodup
import Mathlib.Tactic.Common
import V2rayRust.Lib.Fault
import V2rayRust.Lib.Poll

/-!
# Writers of chunks

A writer takes a slice, or as much of it as a chunk may hold, makes a chunk of it, and writes
the chunk to the stream below, which may be suspended any number of times; then it is ready
and reports how much of the slice it has taken. How a chunk is made is a `ChunkFormat`.

A poll seals at most one chunk, and only when the last one is out (`pollWrite_chunks`), so the
chunks of a run are sealed in a chain of cipher states (`SealedChain`, `chain_of_writePolls`).
On a stream that works, a caller that polls with one slice after the other writes the chunks of
all of them (`writeRun_of_owes`).
-/

namespace V2ray

/-- How chunks are made; `σ` is what is kept between them. -/
structure ChunkFormat (σ : Type) where
  /-- the most bytes of a slice in a chunk -/
  limit : ℕ
  /-- whether an empty slice ends the writer -/
  emptyEnds : Bool
  chunk : σ → List UInt8 → Except Fault (σ × List UInt8)

/-- Where a writer is suspended. -/
inductive WriterStage
  | idle
  | writing
  | done
  deriving DecidableEq, Repr

structure ChunkWriter (σ : Type) where
  cipher : σ
  buffer : List UInt8
  pos : ℕ
  dataLen : ℕ
  stage : WriterStage
  deriving DecidableEq

/-- What a poll of a writer leaves. -/
structure WritePoll (σ : Type) where
  state : ChunkWriter σ
  events : List WriteEvent
  result : Poll (Except String ℕ)
  /-- the bytes that the stream below has taken -/
  out : List UInt8
  /-- the chunks that were made: what the cipher was, and what is in them -/
  chunks : List (σ × List UInt8)

namespace ChunkWriter

variable {σ : Type}

/-- The `co_await` of `write_data`, and the yield after it. -/
def push (w : ChunkWriter σ) (ws : List WriteEvent) : WritePoll σ :=
  let x := writeData w.buffer w.pos ws
  match x.result with
  | .pending => ⟨{ w with pos := x.pos, stage := .writing }, x.events, .pending, x.out, []⟩
  | .ready r =>
    ⟨{ w with pos := x.pos, buffer := [], stage := .idle }, x.events,
      .ready (r.map fun _ => w.dataLen), x.out, []⟩

/-- `poll_write_encrypted` -/
def pollWrite (fmt : ChunkFormat σ) (w : ChunkWriter σ) (ws : List WriteEvent)
    (data : List UInt8) : Except Fault (WritePoll σ) :=
  match w.stage with
  | .idle =>
    if fmt.emptyEnds ∧ data = [] then
      .ok ⟨{ w with stage := .done }, ws, .ready (.ok 0), [], []⟩
    else do
      let data := data.take fmt.limit
      let (cipher, chunk) ← fmt.chunk w.cipher data
      let x := push ⟨cipher, w.buffer ++ chunk, 0, data.length, .writing⟩ ws
      return { x with chunks := [(w.cipher, data)] }
  | .writing => .ok (push w ws)
  | .done => .ok ⟨w, ws, .ready (.error "unexpected end of file"), [], []⟩

/-- The answers that the writes of a poll get. -/
def answers (fmt : ChunkFormat σ) (w : ChunkWriter σ) (ws : List WriteEvent) (data : List UInt8) :
    List WriteEvent :=
  match w.stage with
  | .idle =>
    if fmt.emptyEnds ∧ data = [] then []
    else
      match fmt.chunk w.cipher (data.take fmt.limit) with
      | .ok (_, chunk) => writeAnswers (w.buffer ++ chunk) 0 ws
      | .error _ => []
  | .writing => writeAnswers w.buffer w.pos ws
  | .done => []

end ChunkWriter

open ChunkWriter

variable {σ : Type} {fmt : ChunkFormat σ} {w : ChunkWriter σ} {ws : List WriteEvent}

/-! ### Any polls -/

/-- What polls leave. -/
structure WriteRun (σ : Type) where
  state : ChunkWriter σ
  events : List WriteEvent
  results : List (Poll (Except String ℕ))
  out : List UInt8
  chunks : List (σ × List UInt8)

/-- One poll for each of these slices. -/
def writePolls (fmt : ChunkFormat σ) :
    List (List UInt8) → ChunkWriter σ → List WriteEvent → Except Fault (WriteRun σ)
  | [], w, ws => .ok ⟨w, ws, [], [], []⟩
  | data :: slices, w, ws => do
    let x ← pollWrite fmt w ws data
    let y ← writePolls fmt slices x.state x.events
    return { y with results := x.result :: y.results, out := x.out ++ y.out,
                    chunks := x.chunks ++ y.chunks }

/-- Chunks that are made one after the other, from a cipher to another. -/
inductive SealedChain (fmt : ChunkFormat σ) : σ → List (σ × List UInt8) → σ → Prop
  | nil (c : σ) : SealedChain fmt c [] c
  | cons {c c' c'' : σ} {data chunk : List UInt8} {chunks : List (σ × List UInt8)}
      (le : data.length ≤ fmt.limit) (ne_nil : fmt.emptyEnds → data ≠ [])
      (chunk_eq : fmt.chunk c data = .ok (c', chunk)) (rest : SealedChain fmt c' chunks c'') :
      SealedChain fmt c ((c, data) :: chunks) c''

theorem SealedChain.append {c c' c'' : σ} {chunks chunks' : List (σ × List UInt8)}
    (h : SealedChain fmt c chunks c') (h' : SealedChain fmt c' chunks' c'') :
    SealedChain fmt c (chunks ++ chunks') c'' := by
  induction h with
  | nil => exact h'
  | cons le ne_nil chunk_eq _ ih => exact .cons le ne_nil chunk_eq (ih h')

theorem push_cipher : (push w ws).state.cipher = w.cipher ∧ (push w ws).chunks = [] := by
  unfold push
  dsimp only
  split <;> exact ⟨rfl, rfl⟩

/-- **Waiting**: a writer is pending only if the last write was. -/
theorem answers_pending {data : List UInt8} {x : WritePoll σ} (h : pollWrite fmt w ws data = .ok x)
    (h_pending : x.result = .pending) : (answers fmt w ws data).getLast? = some .pending := by
  -- the buffer is pushed at the end of every poll that is pending
  have h_push {w : ChunkWriter σ} (h : (push w ws).result = .pending) :
      (writeAnswers w.buffer w.pos ws).getLast? = some .pending := by
    refine writeAnswers_pending ?_
    unfold push at h
    dsimp only at h
    split at h
    · next h_data => exact h_data
    · cases h
  unfold pollWrite at h
  unfold answers
  split at h
  · split at h
    · cases h
      cases h_pending
    · next h_not =>
      obtain ⟨⟨cipher, chunk⟩, h_chunk, h⟩ := bind_eq_ok.mp h
      cases h
      rw [if_neg h_not, h_chunk]
      exact h_push h_pending
  · cases h
    exact h_push h_pending
  · cases h
    cases h_pending

/-- **The chunk of a poll**: at most one is made. -/
theorem pollWrite_chunks {data : List UInt8} {x : WritePoll σ} (h : pollWrite fmt w ws data = .ok x)
    (h_limit : 0 < fmt.limit) : SealedChain fmt w.cipher x.chunks x.state.cipher := by
  unfold pollWrite at h
  split at h
  · split at h
    · cases h; exact .nil _
    · next h_not =>
      obtain ⟨⟨cipher, chunk⟩, h_chunk, h⟩ := bind_eq_ok.mp h
      cases h
      show SealedChain fmt w.cipher [(w.cipher, data.take fmt.limit)] (push _ ws).state.cipher
      rw [push_cipher.1]
      -- a chunk of nothing is only made where the end is no chunk
      refine .cons (List.length_take_le _ _) (fun h_ends h_nil => ?_) h_chunk (.nil _)
      have h_data : data = [] := (List.take_eq_nil_iff.mp h_nil).resolve_left (Nat.ne_of_gt h_limit)
      exact h_not ⟨h_ends, h_data⟩
  · cases h
    rw [push_cipher.1, push_cipher.2]
    exact .nil _
  · cases h; exact .nil _

/-- **The chunks of a run** are made one after the other. -/
theorem chain_of_writePolls (h_limit : 0 < fmt.limit) {slices : List (List UInt8)}
    {y : WriteRun σ} (h : writePolls fmt slices w ws = .ok y) :
    SealedChain fmt w.cipher y.chunks y.state.cipher := by
  induction slices generalizing w ws y with
  | nil => cases h; exact .nil _
  | cons data slices ih =>
    obtain ⟨x, h_poll, h⟩ := bind_eq_ok.mp h
    obtain ⟨y', h_rest, h⟩ := bind_eq_ok.mp h
    cases h
    exact (pollWrite_chunks h_poll h_limit).append (ih h_rest)

section Congr

variable {fmt' : ChunkFormat σ}

/-- A format that seals alike what a poll has sealed makes the same poll. -/
theorem pollWrite_congr (h_limit : fmt'.limit = fmt.limit) (h_ends : fmt'.emptyEnds = fmt.emptyEnds)
    {data : List UInt8} {x : WritePoll σ} (h : pollWrite fmt w ws data = .ok x)
    (h_same : ∀ chunk ∈ x.chunks, ∀ r,
      fmt.chunk chunk.1 chunk.2 = .ok r → fmt'.chunk chunk.1 chunk.2 = .ok r) :
    pollWrite fmt' w ws data = .ok x := by
  unfold pollWrite at h ⊢
  rw [h_limit, h_ends]
  split at h
  · split at h
    · next h_end => rw [if_pos h_end]; exact h
    · next h_not =>
      rw [if_neg h_not]
      obtain ⟨r, h_chunk, h⟩ := bind_eq_ok.mp h
      cases h
      -- the one chunk of the poll is among those on which the formats agree
      have h_chunk' : fmt'.chunk w.cipher (data.take fmt.limit) = .ok r :=
        h_same _ List.mem_cons_self r h_chunk
      dsimp only
      rw [h_chunk']
      rfl
  · exact h
  · exact h

/-- Formats that make the same of the chunks of a run have the same run. -/
theorem writePolls_congr (h_limit : fmt'.limit = fmt.limit)
    (h_ends : fmt'.emptyEnds = fmt.emptyEnds)
    {slices : List (List UInt8)} {y : WriteRun σ} (h : writePolls fmt slices w ws = .ok y)
    (h_same : ∀ chunk ∈ y.chunks, ∀ r,
      fmt.chunk chunk.1 chunk.2 = .ok r → fmt'.chunk chunk.1 chunk.2 = .ok r) :
    writePolls fmt' slices w ws = .ok y := by
  induction slices generalizing w ws y with
  | nil => exact h
  | cons data slices ih =>
    obtain ⟨x, h_poll, h⟩ := bind_eq_ok.mp h
    obtain ⟨y', h_rest, h⟩ := bind_eq_ok.mp h
    cases h
    rw [writePolls,
      pollWrite_congr h_limit h_ends h_poll fun chunk h_chunk =>
        h_same chunk (List.mem_append_left _ h_chunk), ok_bind,
      ih h_rest fun chunk h_chunk => h_same chunk (List.mem_append_right _ h_chunk)]
    rfl

/-- A format that never stops has all runs. -/
theorem writePolls_returns (h : ∀ c data, ∃ r, fmt.chunk c data = .ok r)
    (slices : List (List UInt8))
    (w : ChunkWriter σ) (ws : List WriteEvent) : ∃ y, writePolls fmt slices w ws = .ok y := by
  induction slices generalizing w ws with
  | nil => exact ⟨_, rfl⟩
  | cons data slices ih =>
    -- a poll makes one chunk at most, and that returns
    have h_poll : ∃ x, pollWrite fmt w ws data = .ok x := by
      unfold pollWrite
      split
      · split
        · exact ⟨_, rfl⟩
        · obtain ⟨r, h_r⟩ := h w.cipher (data.take fmt.limit)
          dsimp only
          rw [h_r]
          exact ⟨_, rfl⟩
      · exact ⟨_, rfl⟩
      · exact ⟨_, rfl⟩
    obtain ⟨x, h_x⟩ := h_poll
    obtain ⟨y, h_y⟩ := ih x.state x.events
    rw [writePolls, h_x, ok_bind, h_y]
    exact ⟨_, rfl⟩

end Congr

/-! ### Slices, each polled until it is written -/

/-- What a caller leaves that writes slices: the answers, and the slices that are not written. -/
structure SliceRun (σ : Type) where
  state : ChunkWriter σ
  events : List WriteEvent
  out : List UInt8
  returned : List (Except String ℕ)
  left : List (List UInt8)

/-- So many polls, with a slice until it is ready and then with the next. -/
def writeRun (fmt : ChunkFormat σ) :
    ℕ → List (List UInt8) → ChunkWriter σ → List WriteEvent → Except Fault (SliceRun σ)
  | 0, slices, w, ws => .ok ⟨w, ws, [], [], slices⟩
  | _ + 1, [], w, ws => .ok ⟨w, ws, [], [], []⟩
  | n + 1, data :: slices, w, ws => do
    let x ← pollWrite fmt w ws data
    match x.result with
    | .pending =>
      let y ← writeRun fmt n (data :: slices) x.state x.events
      return { y with out := x.out ++ y.out }
    | .ready r =>
      let y ← writeRun fmt n slices x.state x.events
      return { y with out := x.out ++ y.out, returned := r :: y.returned }

/-- The bytes of the chunks of these slices. -/
inductive Sealed (fmt : ChunkFormat σ) : σ → List (List UInt8) → List UInt8 → Prop
  | nil (c : σ) : Sealed fmt c [] []
  | cons {c c' : σ} {data chunk wire : List UInt8} {slices : List (List UInt8)}
      (not_end : fmt.emptyEnds → data ≠ [])
      (chunk_eq : fmt.chunk c (data.take fmt.limit) = .ok (c', chunk))
      (rest : Sealed fmt c' slices wire) : Sealed fmt c (data :: slices) (chunk ++ wire)

/-- The bytes that a writer still has to write when these slices are left. -/
inductive Owes (fmt : ChunkFormat σ) (w : ChunkWriter σ) : List (List UInt8) → List UInt8 → Prop
  /-- what an idle writer holds waits for the next slice -/
  | nothing (stage_eq : w.stage = .idle) : Owes fmt w [] []
  | idle {data wire : List UInt8} {slices : List (List UInt8)} (stage_eq : w.stage = .idle)
      (chunks : Sealed fmt w.cipher (data :: slices) wire) :
      Owes fmt w (data :: slices) (w.buffer ++ wire)
  | writing {data wire : List UInt8} {slices : List (List UInt8)} (stage_eq : w.stage = .writing)
      (dataLen_eq : w.dataLen = min fmt.limit data.length)
      (chunks : Sealed fmt w.cipher slices wire) :
      Owes fmt w (data :: slices) (w.buffer.drop w.pos ++ wire)

/-- What a poll leaves on a stream that works. -/
inductive Writes (fmt : ChunkFormat σ) (ws : List WriteEvent) (data : List UInt8)
    (slices : List (List UInt8)) (owed : List UInt8) (x : WritePoll σ) : Prop
  | ready {owed' : List UInt8} (result_eq : x.result = .ready (.ok (min fmt.limit data.length)))
      (owed_eq : owed = x.out ++ owed') (owes : Owes fmt x.state slices owed')
      (working : Working x.events) (pendings_le : writePendings x.events ≤ writePendings ws)
      (accepts_le : accepts ws ≤ x.out.length + accepts x.events)
  | pending {owed' : List UInt8} (result_eq : x.result = .pending) (owed_eq : owed = x.out ++ owed')
      (owes : Owes fmt x.state (data :: slices) owed') (not_out : owed' ≠ [])
      (working : Working x.events)
      (spent : writePendings x.events < writePendings ws ∨ x.events = [])
      (accepts_le : accepts ws ≤ x.out.length + accepts x.events)

/-- An idle writer with an empty buffer owes the chunks of its slices. -/
theorem owes_of_sealed {slices : List (List UInt8)} {wire : List UInt8} (h_stage : w.stage = .idle)
    (h_buffer : w.buffer = []) (h : Sealed fmt w.cipher slices wire) : Owes fmt w slices wire := by
  cases slices with
  | nil => cases h; exact .nothing h_stage
  | cons data slices =>
    have h_owes := Owes.idle h_stage h
    rwa [h_buffer, List.nil_append] at h_owes

/-- A poll with a chunk in the buffer writes a part of it, or the rest. -/
theorem writes_push {data wire : List UInt8} {slices : List (List UInt8)} (h_working : Working ws)
    (h_len : w.dataLen = min fmt.limit data.length) (h : Sealed fmt w.cipher slices wire) :
    Writes fmt ws data slices (w.buffer.drop w.pos ++ wire) (push w ws) := by
  have h_clean : WriteClean w.buffer w.pos ws (writeData w.buffer w.pos ws) := writeClean h_working
  unfold push
  generalize writeData w.buffer w.pos ws = x at h_clean ⊢
  cases h_clean with
  | done working pendings_le accepts_le =>
    refine .ready ?_ rfl (owes_of_sealed rfl rfl h) working pendings_le accepts_le
    show Poll.ready (Except.ok w.dataLen) = _
    rw [h_len]
  | @pending pos' out ws' working lt out_eq spent accepts_le =>
    -- the rest of the chunk is owed, and the slice with it
    have h_owes : Owes fmt { w with pos := pos', stage := .writing } (data :: slices)
        (w.buffer.drop pos' ++ wire) := .writing rfl h_len h
    refine .pending rfl ?_ h_owes ?_ working spent accepts_le
    · show _ = out ++ (w.buffer.drop pos' ++ wire)
      rw [← List.append_assoc, out_eq]
    · intro h_nil
      have h_drop := (List.append_eq_nil_iff.mp h_nil).1
      exact absurd (List.drop_eq_nil_iff.mp h_drop) (Nat.not_le_of_lt lt)

/-- **A poll on a stream that works.** -/
theorem writes_pollWrite {data owed : List UInt8} {slices : List (List UInt8)}
    (h_working : Working ws) (h : Owes fmt w (data :: slices) owed) :
    ∃ x, pollWrite fmt w ws data = .ok x ∧ Writes fmt ws data slices owed x := by
  unfold pollWrite
  cases h with
  | idle stage_eq chunks =>
    cases chunks with
    | @cons _ c _ chunk _ _ not_end chunk_eq rest =>
      rw [stage_eq]
      dsimp only
      rw [if_neg (fun h => not_end h.1 h.2), chunk_eq, ok_bind]
      refine ⟨_, rfl, ?_⟩
      have h_push := writes_push
        (w := ⟨c, w.buffer ++ chunk, 0, (data.take fmt.limit).length, .writing⟩)
        h_working List.length_take rest
      rw [← List.append_assoc]
      -- the record of chunks plays no part
      cases h_push with
      | ready result_eq owed_eq owes working pendings_le accepts_le =>
        exact .ready result_eq owed_eq owes working pendings_le accepts_le
      | pending result_eq owed_eq owes not_out working spent accepts_le =>
        exact .pending result_eq owed_eq owes not_out working spent accepts_le
  | writing stage_eq dataLen_eq chunks =>
    rw [stage_eq]
    exact ⟨_, rfl, writes_push h_working dataLen_eq chunks⟩

/-- **Writing slices to a stream that works.** What has been taken is a prefix of what is owed,
the slices that are written report what was taken of them, once none is left everything is
out, and a stream that takes enough writes leaves none. -/
theorem writeRun_of_owes {slices : List (List UInt8)} {owed : List UInt8} {n : ℕ}
    (h_working : Working ws) (h : Owes fmt w slices owed) :
    ∃ y, writeRun fmt n slices w ws = .ok y ∧ y.out <+: owed ∧
      (∃ written, slices = written ++ y.left ∧
        y.returned = written.map fun data => .ok (min fmt.limit data.length)) ∧
      (y.left = [] → y.out = owed) ∧
      (writePendings ws + slices.length ≤ n → owed.length ≤ accepts ws → y.left = []) := by
  -- on the polls that are left
  induction n generalizing slices w ws owed with
  | zero =>
    refine ⟨_, rfl, List.nil_prefix, ⟨[], rfl, rfl⟩, fun h_left => ?_, fun h_n _ => ?_⟩
    · cases h_left
      cases h
      rfl
    · have h_len : slices.length = 0 := by omega
      exact List.length_eq_zero_iff.mp h_len
  | succ n ih =>
    cases slices with
    | nil =>
      cases h
      exact ⟨_, rfl, List.nil_prefix, ⟨[], rfl, rfl⟩, fun _ => rfl, fun _ _ => rfl⟩
    | cons data slices =>
      obtain ⟨x, h_poll, h_x⟩ := writes_pollWrite h_working h
      rw [writeRun, h_poll, ok_bind]
      cases h_x with
      -- the slice is taken: the chunk is part of what is owed, and the rest goes to the next slice
      | ready result_eq owed_eq owes working pendings_le accepts_le =>
        obtain ⟨y, h_run, h_pre, ⟨written, h_slices, h_returned⟩, h_all, h_left⟩ := ih working owes
        rw [result_eq]
        dsimp only
        rw [h_run, ok_bind]
        refine ⟨_, rfl, ?_, ⟨data :: written, ?_, ?_⟩, fun h_nil => ?_, fun h_n h_len => ?_⟩
        · rw [owed_eq]
          exact (List.prefix_append_right_inj _).mpr h_pre
        · exact congrArg (data :: ·) h_slices
        · exact congrArg (_ :: ·) h_returned
        · rw [owed_eq, ← h_all h_nil]
        · rw [owed_eq, List.length_append] at h_len
          rw [List.length_cons] at h_n
          exact h_left (by omega) (by omega)
      | @pending owed' result_eq owed_eq owes not_out working spent accepts_le =>
        -- the same slice again, with less owed
        obtain ⟨y, h_run, h_pre, h_written, h_all, h_left⟩ := ih working owes
        rw [result_eq]
        dsimp only
        rw [h_run, ok_bind]
        refine ⟨_, rfl, ?_, h_written, fun h_nil => ?_, fun h_n h_len => ?_⟩
        · rw [owed_eq]
          exact (List.prefix_append_right_inj _).mpr h_pre
        · rw [owed_eq, ← h_all h_nil]
        · rw [owed_eq, List.length_append] at h_len
          rcases spent with h_spent | h_over
          · rw [List.length_cons] at h_n h_left
            exact h_left (by omega) (by omega)
          · -- the stream has taken as many writes as there are bytes
            rw [h_over] at accepts_le
            have h_zero : accepts [] = 0 := rfl
            have h_owed' : 0 < owed'.length := List.length_pos_iff.mpr not_out
            omega

/-! ### A stream that takes whole chunks -/

/-- An answer that takes the whole buffer ends the loop. -/
theorem writeData_accept {buffer : List UInt8} {n : ℕ} (h : buffer ≠ []) (h_le : buffer.length ≤ n)
    (ws : List WriteEvent) :
    writeData buffer 0 (.accept n :: ws) = ⟨.ready (.ok ()), buffer.length, buffer, ws⟩ := by
  have h_rest : writeData buffer (0 + buffer.length) ws =
      ⟨.ready (.ok ()), buffer.length, [], ws⟩ := by
    rw [Nat.zero_add]
    cases ws <;> rw [writeData.eq_def] <;> exact if_neg (Nat.lt_irrefl _)
  rw [writeData.eq_def]
  dsimp only
  rw [if_pos (List.length_pos_iff.mpr h), List.drop_zero, List.take_of_length_le h_le, if_neg h,
    h_rest]
  simp

/-- A write that takes the whole buffer. -/
theorem writeData_whole (buffer : List UInt8) (ws : List WriteEvent) :
    ∃ ws', (Working ws → Working ws') ∧
      writeData buffer 0 ws' = ⟨.ready (.ok ()), buffer.length, buffer, ws⟩ := by
  by_cases h_nil : buffer = []
  · subst h_nil
    refine ⟨ws, id, ?_⟩
    cases ws <;> rw [writeData.eq_def] <;> rfl
  · exact ⟨.accept buffer.length :: ws, .accept (List.length_pos_iff.mpr h_nil),
      writeData_accept h_nil (Nat.le_refl _) ws⟩

/-- A poll whose chunk is taken at once. -/
theorem pollWrite_whole {c : σ} {data chunk : List UInt8} {ws' : List WriteEvent}
    (h_stage : w.stage = .idle) (h_data : fmt.emptyEnds → data ≠ [])
    (h_chunk : fmt.chunk w.cipher (data.take fmt.limit) = .ok (c, chunk))
    (h_write : writeData (w.buffer ++ chunk) 0 ws' =
      ⟨.ready (.ok ()), (w.buffer ++ chunk).length, w.buffer ++ chunk, ws⟩) :
    pollWrite fmt w ws' data = .ok
      ⟨⟨c, [], (w.buffer ++ chunk).length, (data.take fmt.limit).length, .idle⟩, ws,
        .ready (.ok (data.take fmt.limit).length), w.buffer ++ chunk,
        [(w.cipher, data.take fmt.limit)]⟩ := by
  unfold pollWrite
  rw [h_stage]
  dsimp only
  rw [if_neg (fun h => h_data h.1 h.2), h_chunk, ok_bind]
  unfold push
  dsimp only
  rw [h_write]
  rfl

/-- Slices that can be sealed are, by a poll each, over a stream that takes whole chunks. -/
theorem exists_writePolls {slices : List (List UInt8)} {wire : List UInt8}
    (h_stage : w.stage = .idle) (h : Sealed fmt w.cipher slices wire) :
    ∃ ws y, Working ws ∧ writePolls fmt slices w ws = .ok y ∧
      y.chunks.map Prod.snd = slices.map fun data => data.take fmt.limit := by
  induction slices generalizing w wire with
  | nil => exact ⟨[], _, .nil, rfl, rfl⟩
  | cons data slices ih =>
    cases h with
    | @cons _ c _ chunk wire' _ not_end chunk_eq rest =>
      -- the writer after the chunk of this slice, with nothing left to push
      let w' : ChunkWriter σ :=
        ⟨c, [], (w.buffer ++ chunk).length, (data.take fmt.limit).length, .idle⟩
      obtain ⟨ws, y, h_working, h_run, h_chunks⟩ := ih (w := w') rfl rest
      obtain ⟨ws', h_working', h_write⟩ := writeData_whole (w.buffer ++ chunk) ws
      have h_polls : ∃ y', writePolls fmt (data :: slices) w ws' = .ok y' ∧
          y'.chunks = (w.cipher, data.take fmt.limit) :: y.chunks := by
        rw [writePolls, pollWrite_whole h_stage not_end chunk_eq h_write, ok_bind, h_run, ok_bind]
        exact ⟨_, rfl, rfl⟩
      obtain ⟨y', h_run', h_y'⟩ := h_polls
      refine ⟨ws', y', h_working' h_working, h_run', ?_⟩
      rw [h_y', List.map_cons, h_chunks]
      rfl

end V2ray
