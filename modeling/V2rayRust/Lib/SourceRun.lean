import Mathlib.Data.List.Basic
import V2rayRust.Lib.Fault
import V2rayRust.Lib.ReadRun

/-!
# Runs of a reader over any source

The same as for readers of a byte stream, for readers of another source: what a poll meets
there is an event of some type `E`. A run may be known to go well only while its steps meet a
condition; `run_of_meets` is about runs whose steps all do. The reads of a byte stream are a source,
and no condition is met by every run, so `run_of_delivers` is a case of it.
-/

namespace V2ray

/-- What a poll of a reader leaves. -/
structure SourcePoll (E S : Type) where
  state : S
  events : List E
  result : Poll (Except String Unit)
  put : List UInt8

structure SourceRun (E S : Type) where
  state : S
  events : List E
  put : List UInt8
  how : ReadEnd

section Run

variable {E S : Type} (poll : S → List E → ℕ → Except Fault (SourcePoll E S))

/-- Polls with destinations of these sizes, until the reader reports an error or the end. -/
def sourceRun : List ℕ → S → List E → Except Fault (SourceRun E S)
  | [], s, es => .ok ⟨s, es, [], .more⟩
  | room :: rooms, s, es => do
    let x ← poll s es room
    match x.result with
    | .pending => sourceRun rooms x.state x.events
    | .ready (.error message) => return ⟨x.state, x.events, x.put, .failed message⟩
    | .ready (.ok ()) =>
      if x.put = [] then return ⟨x.state, x.events, [], .ended⟩
      else
        let y ← sourceRun rooms x.state x.events
        return { y with put := x.put ++ y.put }

/-- Every poll of a run meets a condition on its destination and on what is before it. -/
def Meets (Fits : S → List E → ℕ → Prop) : List ℕ → S → List E → Prop
  | [], _, _ => True
  | room :: rooms, s, es =>
    Fits s es room ∧ ∀ x, poll s es room = .ok x →
      (x.result = .pending ∨ x.result = .ready (.ok ()) ∧ x.put ≠ []) →
        Meets Fits rooms x.state x.events

variable (waits : S → List E → ℕ) (Ahead : S → List E → List UInt8 → Prop)

/-- What a poll does when `rest` is ahead, and so many waits: it puts some of it, or waits, or
reports the end, and then nothing was ahead. -/
inductive SourceDelivery (n : ℕ) (rest : List UInt8) (x : SourcePoll E S) : Prop
  | put {rest' : List UInt8} (result_eq : x.result = .ready (.ok ())) (ne_nil : x.put ≠ [])
      (rest_eq : rest = x.put ++ rest') (ahead : Ahead x.state x.events rest')
      (waits_le : waits x.state x.events ≤ n)
  | pending (result_eq : x.result = .pending) (ahead : Ahead x.state x.events rest)
      (spent : waits x.state x.events < n ∨ rest = [])
  | ended (result_eq : x.result = .ready (.ok ())) (put_eq : x.put = []) (nothing : rest = [])

variable {poll waits Ahead}

/-- What is delivered while fewer waits are left is delivered before. -/
theorem SourceDelivery.mono {n m : ℕ} {rest : List UInt8} {x : SourcePoll E S}
    (h : SourceDelivery waits Ahead n rest x) (h_le : n ≤ m) :
    SourceDelivery waits Ahead m rest x := by
  cases h with
  | put result_eq ne_nil rest_eq ahead waits_le =>
    exact .put result_eq ne_nil rest_eq ahead (Nat.le_trans waits_le h_le)
  | pending result_eq ahead spent =>
    exact .pending result_eq ahead (spent.imp (fun h_lt => Nat.lt_of_lt_of_le h_lt h_le) id)
  | ended result_eq put_eq nothing => exact .ended result_eq put_eq nothing

/-- **Runs whose steps meet a condition.** If a poll that meets it delivers, then in such a run
what was put is a prefix of what is ahead, no poll fails, the end is reported only when nothing
is left, and after as many polls as there are waits and bytes nothing is. -/
theorem run_of_meets {Fits : S → List E → ℕ → Prop}
    (h : ∀ s es rest room, Ahead s es rest → 0 < room → Fits s es room →
      ∃ x, poll s es room = .ok x ∧ SourceDelivery waits Ahead (waits s es) rest x)
    {s : S} {es : List E} {rest : List UInt8} (h_ahead : Ahead s es rest) {rooms : List ℕ}
    (h_rooms : ∀ room ∈ rooms, 0 < room) (h_meets : Meets poll Fits rooms s es) :
    ∃ y, sourceRun poll rooms s es = .ok y ∧ y.put <+: rest ∧ (∀ e, y.how ≠ .failed e) ∧
      (y.how = .ended → y.put = rest) ∧
      (waits s es + rest.length ≤ rooms.length → y.put = rest) := by
  induction rooms generalizing s es rest with
  -- no poll: no waits and no bytes are left when none are allowed
  | nil =>
    refine ⟨⟨s, es, [], .more⟩, rfl, List.nil_prefix, fun _ hf => (by cases hf),
      fun hf => (by cases hf), fun h_len => ?_⟩
    have h_rest : rest.length = 0 :=
      Nat.eq_zero_of_le_zero (Nat.le_trans (Nat.le_add_left _ _) h_len)
    exact (List.length_eq_zero_iff.mp h_rest).symm
  | cons room rooms ih =>
    have h_tail : ∀ room ∈ rooms, 0 < room := fun r hr => h_rooms r (List.mem_cons_of_mem _ hr)
    obtain ⟨h_fits, h_later⟩ := h_meets
    -- the condition is met here, and by what the poll leaves
    obtain ⟨x, h_poll, h_x⟩ := h s es rest room h_ahead (h_rooms room List.mem_cons_self) h_fits
    rw [sourceRun, h_poll, ok_bind]
    cases h_x with
    | @put rest' result_eq ne_nil rest_eq ahead waits_le =>
      obtain ⟨y, h_run, h_pre, h_ok, h_end, h_all⟩ :=
        ih ahead h_tail (h_later x h_poll (Or.inr ⟨result_eq, ne_nil⟩))
      rw [result_eq]
      dsimp only
      rw [if_neg ne_nil, h_run, ok_bind]
      refine ⟨_, rfl, ?_, h_ok, fun h_how => ?_, fun h_len => ?_⟩
      · rw [rest_eq]
        exact (List.prefix_append_right_inj _).mpr h_pre
      · rw [rest_eq, ← h_end h_how]
      · -- at least one byte was put, so there is one poll less to ask for
        have h_pos : 0 < x.put.length := List.length_pos_iff.mpr ne_nil
        rw [rest_eq, List.length_append, List.length_cons] at h_len
        rw [rest_eq, ← h_all (by omega)]
    -- a wait less, or nothing is ahead and nothing is put
    | pending result_eq ahead spent =>
      obtain ⟨y, h_run, h_pre, h_ok, h_end, h_all⟩ :=
        ih ahead h_tail (h_later x h_poll (Or.inl result_eq))
      rw [result_eq]
      refine ⟨y, h_run, h_pre, h_ok, h_end, fun h_len => ?_⟩
      rw [List.length_cons] at h_len
      rcases spent with h_spent | h_nothing
      · exact h_all (by omega)
      · rw [h_nothing] at h_pre ⊢
        exact List.prefix_nil.mp h_pre
    -- the run ends here
    | ended result_eq put_eq nothing =>
      rw [result_eq]
      dsimp only
      rw [if_pos put_eq]
      refine ⟨_, rfl, List.nil_prefix, fun _ hf => (by cases hf), fun _ => nothing.symm,
        fun _ => nothing.symm⟩

end Run

/-! ### Readers of a byte stream -/

section Bytes

variable {S : Type} {poll : S → List ReadEvent → ℕ → Except Fault (ReadPoll S)}
  {Ahead : S → List ReadEvent → List UInt8 → Prop}

/-- The reads of a byte stream are a source. -/
def ReadPoll.source (x : ReadPoll S) : SourcePoll ReadEvent S :=
  ⟨x.state, x.events, x.result, x.put⟩

def SourceRun.read (y : SourceRun ReadEvent S) : ReadRun S := ⟨y.state, y.events, y.put, y.how⟩

/-- A run of a reader of bytes is a run over its schedule as a source. -/
theorem readRun_eq_sourceRun (rooms : List ℕ) (s : S) (es : List ReadEvent) :
    readRun poll rooms s es =
      (sourceRun (fun s es room => (poll s es room).map ReadPoll.source) rooms s es).map
        SourceRun.read := by
  induction rooms generalizing s es with
  | nil => rfl
  | cons room rooms ih =>
    rw [readRun, sourceRun]
    cases poll s es room with
    | error f => rfl
    | ok x =>
      obtain ⟨s', es', result, put⟩ := x
      -- both runs take the next destination after the same answers
      cases result with
      | pending => exact ih s' es'
      | ready answer =>
        cases answer with
        | error message => rfl
        | ok _ =>
          show (if put = [] then _ else _) = Except.map _ (if put = [] then _ else _)
          split
          · rfl
          · rw [ih]
            show _ = Except.map _ (sourceRun _ rooms s' es' >>= _)
            cases sourceRun (fun s es room => (poll s es room).map ReadPoll.source) rooms s'
                es' with
            | error f => rfl
            | ok y => rfl

/-- A reader over a schedule is a source whose waits are the `Pending`s of the schedule. -/
theorem Delivery.source {es : List ReadEvent} {rest : List UInt8} {x : ReadPoll S}
    (h : Delivery Ahead es rest x) :
    SourceDelivery (fun _ => pendings) Ahead (pendings es) rest x.source := by
  cases h with
  | put result_eq ne_nil rest_eq ahead pendings_le =>
    exact .put result_eq ne_nil rest_eq ahead pendings_le
  | pending result_eq ahead spent => exact .pending result_eq ahead spent
  | ended result_eq put_eq nothing => exact .ended result_eq put_eq nothing

/-- Every run meets no condition. -/
theorem meets_true {E : Type} {poll : S → List E → ℕ → Except Fault (SourcePoll E S)}
    (rooms : List ℕ) (s : S) (es : List E) : Meets poll (fun _ _ _ => True) rooms s es := by
  induction rooms generalizing s es with
  | nil => trivial
  | cons room rooms ih => exact ⟨trivial, fun x _ _ => ih x.state x.events⟩

/-- **Runs of a reader that delivers.** What was put is a prefix of what is ahead, no poll
fails, the end is reported only when nothing is left, and after as many polls as there are
pending answers and bytes nothing is. -/
theorem run_of_delivers (h : Delivers poll Ahead) {s : S} {es : List ReadEvent}
    {rest : List UInt8} (h_ahead : Ahead s es rest) {rooms : List ℕ}
    (h_rooms : ∀ room ∈ rooms, 0 < room) :
    ∃ y, readRun poll rooms s es = .ok y ∧ y.put <+: rest ∧ (∀ e, y.how ≠ .failed e) ∧
      (y.how = .ended → y.put = rest) ∧
      (pendings es + rest.length ≤ rooms.length → y.put = rest) := by
  let sourcePoll (s : S) (es : List ReadEvent) (room : ℕ) := (poll s es room).map ReadPoll.source
  have h_source (s : S) (es : List ReadEvent) (rest : List UInt8) (room : ℕ) (h_s : Ahead s es rest)
      (h_room : 0 < room) (_ : True) : ∃ x, sourcePoll s es room = .ok x ∧
        SourceDelivery (fun _ => pendings) Ahead (pendings es) rest x := by
    obtain ⟨x, h_poll, h_x⟩ := h s es rest room h_s h_room
    refine ⟨x.source, ?_, h_x.source⟩
    show (poll s es room).map ReadPoll.source = _
    rw [h_poll]
    rfl
  -- every poll is served, so nothing has to be asked of the run
  obtain ⟨y, h_run, h_y⟩ := run_of_meets h_source h_ahead h_rooms (meets_true rooms s es)
  refine ⟨y.read, ?_, h_y⟩
  rw [readRun_eq_sourceRun, h_run]
  rfl

end Bytes

/-! ### Polls, whatever they answer -/

/-- What polls leave, and what they put. -/
structure SourcePolls (E S : Type) where
  state : S
  events : List E
  put : List UInt8

section Polls

variable {E S : Type} (poll : S → List E → ℕ → SourcePoll E S)

/-- Polls with destinations of these sizes. -/
def sourcePolls : List ℕ → S → List E → SourcePolls E S
  | [], s, es => ⟨s, es, []⟩
  | room :: rooms, s, es =>
    let x := poll s es room
    let y := sourcePolls rooms x.state x.events
    { y with put := x.put ++ y.put }

variable {poll}

/-- What every poll keeps, polls keep. -/
theorem sourcePolls_keeps {P : S → List E → Prop}
    (h : ∀ s es room, P s es → P (poll s es room).state (poll s es room).events)
    (rooms : List ℕ) {s : S} {es : List E} (h_s : P s es) :
    P (sourcePolls poll rooms s es).state (sourcePolls poll rooms s es).events := by
  induction rooms generalizing s es with
  | nil => exact h_s
  | cons room rooms ih => exact ih (h s es room h_s)

variable {held : S → List UInt8} {bytes : E → List UInt8}

/-- **No byte is lost.** If what one poll puts and what it then holds is what was held and what it
has received, then so it is for polls. -/
theorem sourcePolls_received
    (h : ∀ s es room, ∃ used, es = used ++ (poll s es room).events ∧
      (poll s es room).put ++ held (poll s es room).state = held s ++ used.flatMap bytes)
    (rooms : List ℕ) (s : S) (es : List E) :
    ∃ received, es = received ++ (sourcePolls poll rooms s es).events ∧
      (sourcePolls poll rooms s es).put ++ held (sourcePolls poll rooms s es).state =
        held s ++ received.flatMap bytes := by
  induction rooms generalizing s es with
  | nil => exact ⟨[], rfl, (List.append_nil _).symm⟩
  | cons room rooms ih =>
    obtain ⟨used, h_es, h_used⟩ := h s es room
    rw [sourcePolls]
    generalize poll s es room = x at h_es h_used
    -- the run goes on from what the first poll holds
    obtain ⟨received, h_events, h_received⟩ := ih x.state x.events
    refine ⟨used ++ received, ?_, ?_⟩
    · rw [List.append_assoc, ← h_events]
      exact h_es
    · rw [List.append_assoc, h_received, ← List.append_assoc, h_used, List.append_assoc,
        List.flatMap_append]

/-- **All of it comes.** If every poll with a destination that is not full leaves less, as long as
something is left, then nothing is left after as many polls. -/
theorem sourcePolls_all {left : S → List E → ℕ}
    (h : ∀ s es room, 0 < room →
      left (poll s es room).state (poll s es room).events ≤ left s es - 1)
    {rooms : List ℕ} (h_rooms : ∀ room ∈ rooms, 0 < room) {s : S} {es : List E}
    (h_left : left s es ≤ rooms.length) :
    left (sourcePolls poll rooms s es).state (sourcePolls poll rooms s es).events = 0 := by
  induction rooms generalizing s es with
  | nil => exact Nat.le_zero.mp h_left
  | cons room rooms ih =>
    obtain ⟨h_room, h_rooms⟩ := List.forall_mem_cons.mp h_rooms
    have h_less := h s es room h_room
    rw [List.length_cons] at h_left
    exact ih h_rooms (by omega)

end Polls

end V2ray
