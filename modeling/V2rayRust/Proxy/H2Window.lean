import Mathlib.Algebra.GroupWithZero.Nat
import V2rayRust.Lib.Credit
import V2rayRust.Proxy.H2

/-!
# The window of an HTTP/2 tunnel

What `Http2Stream::poll_read` does to the server on the other side of a tunnel, which may send what
its window allows. What does not fit into the destination that a frame meets is kept for later
polls, and they give nothing back for it: the window shrinks by it for good, down to the size of the
smallest destination (`credit_of_run`). So a body comes through only if every frame of it fits into
what the frames before it have left of the window, and then nothing can get stuck (`transfers_iff`).

The tunnel is a link with credit (`Lib/Credit`), whose reader is `poll_read`: what is missing in the
window is on its way, or it is lost (`Credited`). What is lost in a run is the sum of what its polls
keep, and with destinations of one size it is what the frames overflow them by (`Steady`).
-/

namespace V2ray

open CreditLink

namespace Http2Stream

/-- The bytes that a poll keeps of the frame that it takes. -/
def keeps (s : Http2Stream) (es : List BodyEvent) (room : ℕ) : ℕ :=
  if s.buffer ≠ [] then 0
  else match es with
  | .data data :: _ => data.length - room
  | _ => 0

/-- The bytes and events that are left to read. -/
def left (s : Http2Stream) (es : List BodyEvent) : ℕ :=
  s.buffer.length + (frameBytes es).length + es.length

variable {release : List ℕ → Except String Unit}

/-- **One poll** gives back what it takes, less what it keeps. -/
theorem keeps_pollRead (s : Http2Stream) (es : List BodyEvent) (room : ℕ) :
    ∃ used, es = used ++ (s.pollRead release es room).events ∧
      (s.pollRead release es room).state.released.sum + s.keeps es room =
        s.released.sum + (frameBytes used).length := by
  unfold pollRead keeps
  by_cases h_buffer : s.buffer = []
  · rw [if_neg (not_not_intro h_buffer), if_neg (not_not_intro h_buffer)]
    match es with
    | [] => exact ⟨[], rfl, rfl⟩
    | .pending :: es => exact ⟨[.pending], rfl, rfl⟩
    | .err message :: es => exact ⟨[.err message], rfl, rfl⟩
    | .ended :: es => exact ⟨[.ended], rfl, rfl⟩
    | .data data :: es =>
      refine ⟨[.data data], rfl, ?_⟩
      have h_len : (frameBytes [.data data]).length = data.length :=
        congrArg List.length (List.append_nil data)
      dsimp only
      rw [List.sum_append, List.sum_singleton, h_len]
      omega
  · rw [if_pos h_buffer, if_pos h_buffer]
    exact ⟨[], rfl, rfl⟩

/-- A poll never takes back what was given. -/
theorem released_le_pollRead (s : Http2Stream) (es : List BodyEvent) (room : ℕ) :
    s.released.sum ≤ (s.pollRead release es room).state.released.sum := by
  have h_read : Read release s room es (s.pollRead release es room) := read_pollRead s es room
  generalize s.pollRead release es room = x at h_read
  cases h_read with
  | kept | nothing => exact Nat.le_refl _
  | frame =>
    dsimp only
    rw [List.sum_append]
    exact Nat.le_add_right _ _

/-- A poll with a destination that is not full leaves less. -/
theorem left_pollRead (s : Http2Stream) (es : List BodyEvent) {room : ℕ} (h_room : 0 < room) :
    left (s.pollRead release es room).state (s.pollRead release es room).events ≤
      left s es - 1 := by
  unfold pollRead
  by_cases h_buffer : s.buffer = []
  · rw [if_neg (not_not_intro h_buffer)]
    match es with
    | [] =>
      unfold left
      rw [h_buffer]
      exact Nat.le_refl _
    | .pending :: es | .err _ :: es | .ended :: es =>
      unfold left
      rw [frameBytes_cons, List.length_cons]
      exact Nat.le_refl _
    | .data data :: es =>
      -- at most the frame is kept, and it is one event less
      have h_kept : (if min room data.length < data.length then
          s.buffer ++ data.drop (min room data.length) else s.buffer).length ≤ data.length := by
        rw [h_buffer, List.nil_append]
        split
        · rw [List.length_drop]
          exact Nat.sub_le _ _
        · exact Nat.zero_le _
      have h_bytes : (frameBytes (.data data :: es)).length =
          data.length + (frameBytes es).length := by
        rw [frameBytes_cons, List.length_append]
        rfl
      unfold left
      dsimp only
      rw [h_bytes, List.length_cons]
      omega
  · have h_pos : 0 < s.buffer.length := List.length_pos_iff.mpr h_buffer
    rw [if_pos h_buffer]
    unfold left
    dsimp only
    rw [List.length_drop]
    omega

/-- A stream as a reader that gives credit back. -/
def creditReader (release : List ℕ → Except String Unit) : CreditReader Http2Stream where
  poll := pollRead release
  released s := s.released.sum
  takes s es room := by
    obtain ⟨used, h_es, h_keeps⟩ := @keeps_pollRead release s es room
    exact ⟨used, h_es, released_le_pollRead s es room, by omega⟩

theorem drains_creditReader {room : ℕ} (h_room : 0 < room) :
    Drains (creditReader release) room left where
  less s es := left_pollRead s es h_room
  nothing s es h := by
    unfold left at h
    exact List.length_eq_zero_iff.mp (by omega)

end Http2Stream

/-- A server, and the stream that reads what it sends. -/
abbrev Http2Link := CreditLink Http2Stream

open Http2Stream

namespace Http2Link

variable (release : List ℕ → Except String Unit)

/-- A new tunnel, and what the server may send before anything is given back. -/
def start (window : ℕ) : Http2Link := CreditLink.start window Http2Stream.new

def step (c : Http2Link) (turn : CreditTurn) : Option Http2Link :=
  CreditLink.step (creditReader release) c turn

/-- The destination of a read has so many bytes. -/
def HasRoom (least : ℕ) : CreditTurn → Prop
  | .read room => least ≤ room
  | _ => True

/-- What a turn keeps of a frame that it takes. -/
def keeps (c : Http2Link) : CreditTurn → ℕ
  | .read room => c.reader.keeps c.body room
  | _ => 0

/-- What the turns of a run keep of the frames that they take. -/
def kept : Http2Link → List CreditTurn → ℕ
  | _, [] => 0
  | c, turn :: turns =>
    match step release c turn with
    | some c' => c.keeps turn + kept c' turns
    | none => 0

/-- What reads of a size keep of frames. -/
def overflow (room : ℕ) : List (List UInt8) → ℕ
  | [] => 0
  | frame :: frames => frame.length - room + overflow room frames

variable {release} {window room : ℕ} {c c' : Http2Link} {turn : CreditTurn}
variable {turns : List CreditTurn}

/-- What a turn of the reader keeps of a frame is lost. -/
theorem lost_of_read (h : Credited (creditReader release) window c) (room : ℕ) :
    (c.read (creditReader release) room).lost (creditReader release) =
      c.lost (creditReader release) + c.reader.keeps c.body room := by
  obtain ⟨used, h_es, h_keeps⟩ := @keeps_pollRead release c.reader c.body room
  have h_le : (creditReader release).released (c.read (creditReader release) room).reader ≤
      (creditReader release).released c.reader + (frameBytes used).length := by
    show (c.reader.pollRead release c.body room).state.released.sum ≤ c.reader.released.sum + _
    omega
  have h_lost := (h.lost_read h_es h_le).2
  change _ + (c.reader.pollRead release c.body room).state.released.sum =
    _ + c.reader.released.sum + _ at h_lost
  omega

/-- What a turn keeps of a frame is lost, and nothing else is. -/
theorem lost_step (h : Credited (creditReader release) window c)
    (h_step : c.step release turn = some c') :
    c'.lost (creditReader release) = c.lost (creditReader release) + c.keeps turn := by
  cases turn with
  | read room =>
    obtain rfl := Option.some.inj h_step
    exact lost_of_read h room
  | send frame => exact (h.send h_step).2
  | update n => exact (h.update h_step).2

/-- What is lost in a run is what its polls keep. -/
theorem lost_of_run (h : Credited (creditReader release) window c)
    (h_run : runFrom (step release) c turns = some c') :
    c'.lost (creditReader release) = c.lost (creditReader release) + c.kept release turns := by
  induction turns generalizing c with
  | nil =>
    cases h_run
    rfl
  | cons turn turns ih =>
    obtain ⟨m, h_step, h_run⟩ := runFrom_cons.mp h_run
    have h_kept : c.kept release (turn :: turns) = c.keeps turn + m.kept release turns := by
      rw [kept, h_step]
    rw [ih (h.step h_step).1 h_run, lost_step h h_step, h_kept, Nat.add_assoc]

/-- What was put, what is kept and what is on the way are the frames, in order. -/
def Ordered (c : Http2Link) : Prop :=
  c.put ++ (c.reader.buffer ++ frameBytes c.body) = c.sent.flatten

/-- A turn keeps the order of the bytes. -/
theorem Ordered.step (h : c.Ordered) (h_step : c.step release turn = some c') : c'.Ordered := by
  cases turn with
  | read room =>
    obtain rfl := Option.some.inj h_step
    obtain ⟨used, h_es, h_put⟩ := @received_pollRead release c.reader c.body room
    have h_old : c.put ++ (c.reader.buffer ++ frameBytes c.body) = c.sent.flatten := h
    show (c.put ++ (c.reader.pollRead release c.body room).put) ++
      ((c.reader.pollRead release c.body room).state.buffer ++
        frameBytes (c.reader.pollRead release c.body room).events) = c.sent.flatten
    rw [← h_old, List.append_assoc, ← List.append_assoc _ _ (frameBytes _), h_put,
      List.append_assoc, ← frameBytes_append, ← h_es]
  | send frame =>
    obtain ⟨-, rfl⟩ := send_of_step h_step
    have h_old : c.put ++ (c.reader.buffer ++ frameBytes c.body) = c.sent.flatten := h
    show c.put ++ (c.reader.buffer ++ frameBytes (c.body ++ [.data frame])) =
      (c.sent ++ [frame]).flatten
    rw [List.flatten_append, ← h_old, frameBytes_append, List.append_assoc, List.append_assoc]
    rfl
  | update n =>
    obtain ⟨-, rfl⟩ := update_of_step h_step
    exact h

theorem flowing_of_run (h : runFrom (step release) (start window) turns = some c) :
    Credited (creditReader release) window c ∧ c.Ordered := by
  have h_start : Credited (creditReader release) window (start window) ∧ Ordered (start window) :=
    ⟨credited_start rfl, rfl⟩
  exact run_induction (P := fun _ c => Credited (creditReader release) window c ∧ Ordered c)
    h_start (fun _ _ _ _ _ ih h_step => ⟨(ih.1.step h_step).1, Ordered.step ih.2 h_step⟩) h

/-- No poll keeps more of the window than what does not fit into the smallest destination. -/
theorem lost_le_of_step {least : ℕ} (h : Credited (creditReader release) window c)
    (h_lost : c.lost (creditReader release) + least ≤ window)
    (h_least : HasRoom least turn)
    (h_step : c.step release turn = some c') :
    c'.lost (creditReader release) + least ≤ window := by
  have h_keeps := lost_step h h_step
  have h_balance := h.balance
  cases turn with
  | send | update => exact h_keeps ▸ h_lost
  | read room =>
    have h_room : least ≤ room := h_least
    -- the frame was on the way, so it was missing in the window as a whole
    have h_le : c.reader.keeps c.body room ≤ (frameBytes c.body).length - room := by
      unfold Http2Stream.keeps
      split
      · exact Nat.zero_le _
      · split
        · next data es h_body =>
          rw [h_body, frameBytes_cons, List.length_append]
          exact Nat.sub_le_sub_right (Nat.le_add_right data.length _) room
        · exact Nat.zero_le _
    have h_eq : c.keeps (.read room) = c.reader.keeps c.body room := rfl
    rw [h_eq] at h_keeps
    omega

/-- What holds after one turn holds after a run. -/
theorem lost_le_of_run {least : ℕ} (h : Credited (creditReader release) window c)
    (h_lost : c.lost (creditReader release) + least ≤ window)
    (h_least : ∀ turn ∈ turns, HasRoom least turn)
    (h_run : runFrom (step release) c turns = some c') :
    c'.lost (creditReader release) + least ≤ window := by
  induction turns generalizing c with
  | nil =>
    cases h_run
    exact h_lost
  | cons turn turns ih =>
    obtain ⟨m, h_step, h_run⟩ := runFrom_cons.mp h_run
    obtain ⟨h_turn, h_turns⟩ := List.forall_mem_cons.mp h_least
    exact ih (h.step h_step).1 (lost_le_of_step h h_lost h_turn h_step) h_turns h_run

/-! ### Reads of one size -/

/-- The reads of a copy with a buffer of this size. -/
def Paced (room : ℕ) : CreditTurn → Prop
  | .read size => size = room
  | _ => True

theorem Paced.hasRoom (h : Paced room turn) : HasRoom room turn := by
  cases turn with
  | read size => exact Nat.le_of_eq h.symm
  | send | update => trivial

/-- Reads and an update put all that was sent, and bring back what is not lost of the window. -/
theorem exists_settled (h : Credited (creditReader release) window c) (h_ordered : c.Ordered)
    (h_room : 0 < room) :
    ∃ turns c', (∀ turn ∈ turns, Paced room turn) ∧ runFrom (step release) c turns = some c' ∧
      c'.sent = c.sent ∧ c'.put = c.sent.flatten ∧ c'.body = [] ∧
      c'.window + c'.lost (creditReader release) = window := by
  have h_drains : Drains (creditReader release) room left := drains_creditReader h_room
  obtain ⟨n, k, c', h_run, h_left, h_sent, h_window⟩ := CreditLink.exists_settled h_drains h
  -- reads of one size, and one update
  have h_paced : ∀ turn ∈ List.replicate n (.read room) ++ [.update k], Paced room turn := by
    intro turn h_turn
    rcases List.mem_append.mp h_turn with h_read | h_update
    · obtain rfl := List.eq_of_mem_replicate h_read
      rfl
    · obtain rfl := List.mem_singleton.mp h_update
      trivial
  -- what is put, kept and on the way is what was sent
  have h_ordered' : c'.put ++ (c'.reader.buffer ++ frameBytes c'.body) = c'.sent.flatten :=
    run_induction (P := fun _ c => Ordered c) h_ordered
      (fun _ _ _ _ _ ih h_step => Ordered.step ih h_step) h_run
  -- nothing is left to read, neither in the body nor in the buffer
  have h_body : c'.body = [] := h_drains.nothing _ _ h_left
  have h_buffer : c'.reader.buffer = [] := by
    unfold Http2Stream.left at h_left
    exact List.length_eq_zero_iff.mp (by omega)
  refine ⟨_, c', h_paced, h_run, h_sent, ?_, h_body, h_window⟩
  rw [h_buffer, h_body, h_sent] at h_ordered'
  exact (List.append_nil _).symm.trans h_ordered'

theorem overflow_append (before after : List (List UInt8)) :
    overflow room (before ++ after) = overflow room before + overflow room after := by
  induction before with
  | nil => exact (Nat.zero_add _).symm
  | cons frame before ih =>
    rw [List.cons_append, overflow, overflow, ih, Nat.add_assoc]

/-- Frames do not overflow by more than their bytes. -/
theorem overflow_le (room : ℕ) (frames : List (List UInt8)) :
    overflow room frames ≤ frames.flatten.length := by
  induction frames with
  | nil => exact Nat.le_refl _
  | cons frame frames ih =>
    rw [overflow, List.flatten_cons, List.length_append]
    omega

theorem frameBytes_map_data (frames : List (List UInt8)) :
    frameBytes (frames.map .data) = frames.flatten := by
  induction frames with
  | nil => rfl
  | cons frame frames ih =>
    rw [List.map_cons, frameBytes_cons, ih]
    rfl

/-- A tunnel that is read in destinations of one size: every frame that was taken has lost what
it overflows by. -/
structure Steady (release : List ℕ → Except String Unit) (window room : ℕ) (c : Http2Link) :
    Prop where
  credited : Credited (creditReader release) window c
  ordered : c.Ordered
  lost_eq : ∃ taken waiting, c.sent = taken ++ waiting ∧ c.body = waiting.map .data ∧
    c.lost (creditReader release) = overflow room taken

/-- A turn keeps the account of what frames have overflowed their destinations by. -/
theorem Steady.step (h : c.Steady release window room) (h_paced : Paced room turn)
    (h_step : c.step release turn = some c') : c'.Steady release window room where
  credited := (h.credited.step h_step).1
  ordered := h.ordered.step h_step
  lost_eq := by
    have h_lost := lost_step h.credited h_step
    obtain ⟨taken, waiting, h_sent, h_body, h_taken⟩ := h.lost_eq
    rw [h_taken] at h_lost
    cases turn with
    | send frame =>
      obtain ⟨-, rfl⟩ := send_of_step h_step
      refine ⟨taken, waiting ++ [frame], ?_, ?_, h_lost⟩
      · dsimp only
        rw [h_sent, List.append_assoc]
      · dsimp only
        rw [h_body, List.map_append]
        rfl
    | update n =>
      obtain ⟨-, rfl⟩ := update_of_step h_step
      exact ⟨taken, waiting, h_sent, h_body, h_lost⟩
    | read size =>
      obtain rfl : size = room := h_paced
      obtain rfl := Option.some.inj h_step
      have h_keeps : c.keeps (.read size) = c.reader.keeps c.body size := rfl
      have h_events : (c.read (creditReader release) size).body =
          (c.reader.pollRead release c.body size).events := rfl
      rw [h_keeps, h_body] at h_lost
      rw [h_body] at h_events
      by_cases h_buffer : c.reader.buffer = []
      · cases waiting with
        | nil =>
          refine ⟨taken, [], h_sent, ?_, ?_⟩
          · rw [h_events]
            unfold pollRead
            rw [if_neg (not_not_intro h_buffer)]
            rfl
          · rw [h_lost]
            unfold Http2Stream.keeps
            rw [if_neg (not_not_intro h_buffer)]
            rfl
        | cons frame waiting =>
          -- the frame is taken, and has lost what does not fit
          refine ⟨taken ++ [frame], waiting, ?_, ?_, ?_⟩
          · show c.sent = _
            rw [h_sent, List.append_assoc]
            rfl
          · rw [h_events]
            unfold pollRead
            rw [if_neg (not_not_intro h_buffer)]
            rfl
          · rw [h_lost, overflow_append]
            unfold Http2Stream.keeps
            rw [if_neg (not_not_intro h_buffer)]
            rfl
      · refine ⟨taken, waiting, h_sent, ?_, ?_⟩
        · rw [h_events]
          unfold pollRead
          rw [if_pos h_buffer]
        · rw [h_lost]
          unfold Http2Stream.keeps
          rw [if_pos h_buffer]
          rfl

/-- A run of paced turns loses no more than the frames overflow their destinations by. -/
theorem steady_of_run (h_paced : ∀ turn ∈ turns, Paced room turn)
    (h : c.Steady release window room) (h_run : runFrom (step release) c turns = some c') :
    c'.Steady release window room := by
  induction turns generalizing c with
  | nil =>
    cases h_run
    exact h
  | cons turn turns ih =>
    obtain ⟨m, h_step, h_run⟩ := runFrom_cons.mp h_run
    obtain ⟨h_turn, h_turns⟩ := List.forall_mem_cons.mp h_paced
    exact ih h_turns (h.step h_turn h_step) h_run

theorem steady_start (window room : ℕ) : (start window).Steady release window room where
  credited := credited_start rfl
  ordered := rfl
  lost_eq := ⟨[], [], rfl, rfl, rfl⟩

/-- Every frame fits into what the frames before it have left of the window. -/
def Fits (window room : ℕ) (frames : List (List UInt8)) : Prop :=
  AtEach (fun before frame => frame.length + overflow room before ≤ window) frames

/-- What a server could send has fitted. -/
theorem Steady.fits_of_send (h : c.Steady release window room) {frame : List UInt8}
    (h_step : c.step release (.send frame) = some c') :
    frame.length + overflow room c.sent ≤ window := by
  obtain ⟨taken, waiting, h_sent, h_body, h_lost⟩ := h.lost_eq
  have h_balance := h.credited.balance
  have h_le := overflow_le room waiting
  rw [h_lost, h_body, frameBytes_map_data] at h_balance
  obtain ⟨h_frame, -⟩ := send_of_step h_step
  rw [h_sent, overflow_append]
  omega

/-- Every frame that is sent fits into what the frames before it have left of the window. -/
theorem fits_of_run (h_paced : ∀ turn ∈ turns, Paced room turn)
    (h_run : runFrom (step release) (start window) turns = some c) : Fits window room c.sent := by
  -- on the turns, and both at once: a frame is sent in a state that reads have made
  have h_both : (∀ turn ∈ turns, Paced room turn) →
      c.Steady release window room ∧ Fits window room c.sent := by
    refine run_induction (P := fun turns c => (∀ turn ∈ turns, Paced room turn) →
      Steady release window room c ∧ Fits window room c.sent)
      (fun _ => ⟨steady_start window room, atEach_nil⟩) ?_ h_run
    intro turns m turn m' h_run ih h_step h_paced
    obtain ⟨h_paced, h_turn⟩ := List.forall_mem_append.mp h_paced
    obtain ⟨h_steady, h_fits⟩ := ih h_paced
    refine ⟨h_steady.step (h_turn turn List.mem_cons_self) h_step, ?_⟩
    cases turn with
    -- the frame is within the window, and that is what is left of it
    | send frame =>
      have h_frame := h_steady.fits_of_send h_step
      obtain ⟨-, rfl⟩ := send_of_step h_step
      exact atEach_concat.mpr ⟨h_fits, h_frame⟩
    -- the others send nothing
    | update n =>
      obtain ⟨-, rfl⟩ := update_of_step h_step
      exact h_fits
    | read size =>
      obtain rfl := Option.some.inj h_step
      exact h_fits
  exact (h_both h_paced).2

/-- Reads and an update bring back all of the window but what has overflowed. -/
theorem Steady.exists_settled (h : c.Steady release window room) (h_room : 0 < room) :
    ∃ turns c', (∀ turn ∈ turns, Paced room turn) ∧
      runFrom (Http2Link.step release) c turns = some c' ∧ c'.sent = c.sent ∧
      c'.put = c.sent.flatten ∧ c'.window + overflow room c.sent = window := by
  obtain ⟨turns, c', h_paced, h_run, h_sent, h_put, h_nil, h_window⟩ :=
    Http2Link.exists_settled h.credited h.ordered h_room
  refine ⟨turns, c', h_paced, h_run, h_sent, h_put, ?_⟩
  obtain ⟨taken, waiting, h_sent', h_body, h_lost⟩ := (steady_of_run h_paced h h_run).lost_eq
  -- nothing waits any more
  rw [h_nil] at h_body
  have h_waiting : waiting = [] := List.map_eq_nil_iff.mp h_body.symm
  rw [← h_sent, h_sent', h_waiting, List.append_nil, ← h_lost]
  exact h_window

/-- **A body comes through** a tunnel that is read in destinations of one size exactly if every
frame of it fits into what the frames before it have left of the window, which is all but what they
have overflowed the destinations by. Then no way to begin gets stuck: from every state in which
frames of it have been sent, and whatever is on the way, reads and updates bring the rest through.
-/
theorem transfers_iff (release : List ℕ → Except String Unit) {room : ℕ} (h_room : 0 < room)
    (window : ℕ) (frames : List (List UInt8)) :
    ((∃ turns c, (∀ turn ∈ turns, Paced room turn) ∧
      runFrom (step release) (start window) turns = some c ∧ c.sent = frames) ↔
        Fits window room frames) ∧
    (Fits window room frames → ∀ turns c, (∀ turn ∈ turns, Paced room turn) →
      runFrom (step release) (start window) turns = some c → c.sent <+: frames →
        ∃ turns' c', (∀ turn ∈ turns', Paced room turn) ∧
          runFrom (step release) c turns' = some c' ∧ c'.sent = frames ∧
          c'.put = frames.flatten ∧ c'.window + overflow room frames = window) := by
  have h_finish (rest : List (List UInt8)) (c : Http2Link)
      (h : c.Steady release window room) (h_fits : Fits window room (c.sent ++ rest)) :
      ∃ turns' c', (∀ turn ∈ turns', Paced room turn) ∧
        runFrom (step release) c turns' = some c' ∧ c'.sent = c.sent ++ rest ∧
        c'.put = (c.sent ++ rest).flatten ∧
        c'.window + overflow room (c.sent ++ rest) = window := by
    -- on the frames that are left: settle, and send the next one
    induction rest generalizing c with
    | nil =>
      rw [List.append_nil]
      exact h.exists_settled h_room
    -- what is on the way comes first, and then the window is all that it can be
    | cons frame rest ih =>
      obtain ⟨turns, m, h_paced, h_run, h_sent, -, h_window⟩ := h.exists_settled h_room
      have h_frame : frame.length + overflow room c.sent ≤ window := h_fits c.sent frame rest rfl
      have h_le : frame.length ≤ m.window := by omega
      have h_step : m.step release (.send frame) = some { m with
          window := m.window - frame.length
          body := m.body ++ [.data frame]
          sent := m.sent ++ [frame] } := if_pos h_le
      have h_send : Paced room (.send frame) := trivial
      have h_steady := (steady_of_run h_paced h h_run).step h_send h_step
      have h_eq : m.sent ++ [frame] ++ rest = c.sent ++ frame :: rest := by
        rw [h_sent, List.append_assoc]
        rfl
      obtain ⟨turns', c', h_paced', h_run', h_done⟩ := ih _ h_steady (by rw [h_eq]; exact h_fits)
      rw [h_eq] at h_done
      refine ⟨turns ++ .send frame :: turns', c', ?_, ?_, h_done⟩
      · exact List.forall_mem_append.mpr ⟨h_paced, List.forall_mem_cons.mpr ⟨h_send, h_paced'⟩⟩
      · exact runFrom_append.mpr ⟨m, h_run, runFrom_cons.mpr ⟨_, h_step, h_run'⟩⟩
  refine ⟨⟨?_, fun h_fits => ?_⟩, ?_⟩
  · -- what has been sent has met the window
    rintro ⟨turns, c, h_paced, h_run, rfl⟩
    exact fits_of_run h_paced h_run
  · -- from the start on
    obtain ⟨turns, c, h_paced, h_run, h_sent, -⟩ :=
      h_finish frames (start window) (steady_start window room) h_fits
    exact ⟨turns, c, h_paced, h_run, h_sent⟩
  · -- from any state of a run, which is steady
    rintro h_fits turns c h_paced h_run ⟨rest, rfl⟩
    exact h_finish rest c (steady_of_run h_paced (steady_start window room) h_run) h_fits

/-- With destinations of two bytes, a frame of four has cost half of a window of four: a body whose
next frame has three bytes never comes through. -/
theorem transfers_iff_stuck : ¬ ∃ turns c, (∀ turn ∈ turns, Paced 2 turn) ∧
    runFrom (step fun _ => .ok ()) (start 4) turns = some c ∧
      c.sent = [[1, 2, 3, 4], [5, 6, 7]] := by
  rw [(transfers_iff (fun _ => .ok ()) (by decide) 4 [[1, 2, 3, 4], [5, 6, 7]]).1]
  intro h_fits
  have h_last := h_fits [[1, 2, 3, 4]] [5, 6, 7] [] rfl
  revert h_last
  decide

/-- **The window of a tunnel**, for every server and every way to read with destinations that have
`least` bytes or more. What was put, what is kept and what is on the way is what was sent. What is
missing in the window is on its way, with frames or as credit, or a poll has kept it of a frame, and
then it is missing from then on. But `least` bytes of the window are never kept, and from every
state reads and an update lead to one where all is put and the server may send as much again. -/
theorem credit_of_run (release : List ℕ → Except String Unit) {window least : ℕ}
    {turns : List CreditTurn} {c : Http2Link} (h_pos : 0 < least) (h_window : least ≤ window)
    (h_least : ∀ turn ∈ turns, HasRoom least turn)
    (h : runFrom (step release) (start window) turns = some c) :
    c.put ++ (c.reader.buffer ++ frameBytes c.body) = c.sent.flatten ∧
      c.reader.released.sum ≤ c.taken ∧
      c.window + c.returning + (frameBytes c.body).length +
        (start window).kept release turns = window ∧
      (start window).kept release turns + least ≤ window ∧
      (∀ turns' c', runFrom (step release) c turns' = some c' →
        c'.window + (start window).kept release turns ≤ window) ∧
      ∃ turns' c', runFrom (step release) c turns' = some c' ∧ c'.sent = c.sent ∧
        c'.put = c.sent.flatten ∧ least ≤ c'.window := by
  obtain ⟨h_acc, h_ordered⟩ := flowing_of_run h
  -- what is lost in a run is what its polls have kept
  have h_start : Credited (creditReader release) window (start window) := credited_start rfl
  have h_lost : c.lost (creditReader release) = 0 + (start window).kept release turns :=
    lost_of_run h_start h
  rw [Nat.zero_add] at h_lost
  -- at the start nothing is lost, and a poll that loses something leaves room for `least`
  have h_none : (start window).lost (creditReader release) + least ≤ window := by
    show 0 + least ≤ window
    omega
  have h_floor := lost_le_of_run h_start h_none h_least h
  rw [← h_lost]
  refine ⟨h_ordered, h_acc.released_le, h_acc.balance, h_floor,
    fun turns' c' h_run => h_acc.window_le h_run, ?_⟩
  -- reads and an update settle the rest, and lose no more than they may
  obtain ⟨turns', c', h_paced, h_run, h_sent, h_put, h_all⟩ := exists_settled h_acc h_ordered h_pos
  have h_floor' := lost_le_of_run h_acc h_floor (fun turn h => (h_paced turn h).hasRoom) h_run
  exact ⟨turns', c', h_run, h_sent, h_put, by omega⟩

/-- One frame that fills the window, and is read two bytes at a time: all of it is put, everything
has come back that will come back, and that is two bytes of the four. -/
theorem credit_of_run_half :
    ∃ c, runFrom (step fun _ => .ok ()) (start 4)
        [.send [1, 2, 3, 4], .read 2, .read 2, .update 2] = some c ∧
      c.put = [1, 2, 3, 4] ∧ c.window = 2 ∧
      ∀ turns' c', runFrom (step fun _ => .ok ()) c turns' = some c' → c'.window ≤ 2 := by
  have h_least : ∀ turn ∈ [.send [1, 2, 3, 4], .read 2, .read 2, .update 2], HasRoom 2 turn := by
    simp [HasRoom]
  obtain ⟨-, -, -, -, h_window, -⟩ :=
    @credit_of_run (fun _ => .ok ()) 4 2 _ _ (by decide) (by decide) h_least rfl
  exact ⟨_, rfl, rfl, rfl, fun turns' c' h => Nat.le_of_add_le_add_right (h_window turns' c' h)⟩

end Http2Link

end V2ray
