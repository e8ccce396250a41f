import Mathlib.Data.List.Basic
import Mathlib.Tactic.Common
import V2rayRust.Lib.Fault
import V2rayRust.Lib.Poll

/-!
# Runs of a reader

A reader is polled with one destination after the other, until it reports an error or the end
of its stream, as its caller does. `Delivers` is what a single poll of a reader must do to
hand on the bytes that are ahead of it; what follows for every run is `run_of_delivers` of
`SourceRun`. `Kept` and `run_of_keeps` are about a stream that need not be well formed, up to the
first error.
-/

namespace V2ray

/-- What a poll of a reader leaves: its answer, and what it put into the destination. -/
structure ReadPoll (S : Type) where
  state : S
  events : List ReadEvent
  result : Poll (Except String Unit)
  put : List UInt8

/-- The same poll, of a reader inside another. -/
def ReadPoll.map {S T : Type} (f : S → T) (x : ReadPoll S) : ReadPoll T :=
  ⟨f x.state, x.events, x.result, x.put⟩

/-- How a run ended. -/
inductive ReadEnd
  /-- there were no more polls -/
  | more
  /-- the reader reported the end of the stream -/
  | ended
  | failed (message : String)
  deriving DecidableEq, Repr

structure ReadRun (S : Type) where
  state : S
  events : List ReadEvent
  put : List UInt8
  how : ReadEnd

section Run

variable {S : Type} (poll : S → List ReadEvent → ℕ → Except Fault (ReadPoll S))

/-- Polls with destinations of these sizes. -/
def readRun : List ℕ → S → List ReadEvent → Except Fault (ReadRun S)
  | [], s, es => .ok ⟨s, es, [], .more⟩
  | room :: rooms, s, es => do
    let x ← poll s es room
    match x.result with
    | .pending => readRun rooms x.state x.events
    | .ready (.error message) => return ⟨x.state, x.events, x.put, .failed message⟩
    | .ready (.ok ()) =>
      if x.put = [] then return ⟨x.state, x.events, [], .ended⟩
      else
        let y ← readRun rooms x.state x.events
        return { y with put := x.put ++ y.put }

/-! ### Streams that work -/

variable (Ahead : S → List ReadEvent → List UInt8 → Prop)

/-- What a poll does when `rest` is ahead: it puts some of it, or spends a pending poll, or
reports the end, and then nothing was ahead. -/
inductive Delivery (es : List ReadEvent) (rest : List UInt8) (x : ReadPoll S) : Prop
  | put {rest' : List UInt8} (result_eq : x.result = .ready (.ok ())) (ne_nil : x.put ≠ [])
      (rest_eq : rest = x.put ++ rest') (ahead : Ahead x.state x.events rest')
      (pendings_le : pendings x.events ≤ pendings es)
  | pending (result_eq : x.result = .pending) (ahead : Ahead x.state x.events rest)
      (spent : pendings x.events < pendings es ∨ rest = [])
  | ended (result_eq : x.result = .ready (.ok ())) (put_eq : x.put = []) (nothing : rest = [])

/-- What is delivered while fewer pending answers are left is delivered before. -/
theorem Delivery.mono {Q : S → List ReadEvent → List UInt8 → Prop}
    {es es' : List ReadEvent} {rest : List UInt8} {x : ReadPoll S} (h : Delivery Q es' rest x)
    (h_le : pendings es' ≤ pendings es) : Delivery Q es rest x := by
  cases h with
  | put result_eq ne_nil rest_eq ahead pendings_le =>
    exact .put result_eq ne_nil rest_eq ahead (Nat.le_trans pendings_le h_le)
  | pending result_eq ahead spent =>
    exact .pending result_eq ahead (spent.imp (fun h_lt => Nat.lt_of_lt_of_le h_lt h_le) id)
  | ended result_eq put_eq nothing => exact .ended result_eq put_eq nothing

/-- What a reader inside delivers, the reader around it delivers. -/
theorem Delivery.map {T : Type} {Q : S → List ReadEvent → List UInt8 → Prop}
    {Q' : T → List ReadEvent → List UInt8 → Prop} {es : List ReadEvent} {rest : List UInt8}
    {x : ReadPoll S} (f : S → T) (h_q : ∀ s es rest, Q s es rest → Q' (f s) es rest)
    (h : Delivery Q es rest x) : Delivery Q' es rest (x.map f) := by
  cases h with
  | put result_eq ne_nil rest_eq ahead pendings_le =>
    exact .put result_eq ne_nil rest_eq (h_q _ _ _ ahead) pendings_le
  | pending result_eq ahead spent => exact .pending result_eq (h_q _ _ _ ahead) spent
  | ended result_eq put_eq nothing => exact .ended result_eq put_eq nothing

/-- Every poll with room in its destination delivers. -/
def Delivers : Prop :=
  ∀ s es rest room, Ahead s es rest → 0 < room →
    ∃ x, poll s es room = .ok x ∧ Delivery Ahead es rest x

variable {poll Ahead}

/-! ### Streams of any bytes -/

/-- What a poll leaves that fails and delivers nothing, or keeps `Held`: a relation of the
state, what is still to come and what has been delivered. -/
def Kept (Held : S → List ReadEvent → List UInt8 → Prop) (out : List UInt8) (x : ReadPoll S) :
    Prop :=
  ((∃ e, x.result = .ready (.error e)) ∧ x.put = []) ∨
    (Held x.state x.events (out ++ x.put) ∧ (x.result = .pending → x.put = []))

/-- **Runs over any stream.** Polls that return and keep `Held` make a run that does. -/
theorem run_of_keeps {Held : S → List ReadEvent → List UInt8 → Prop}
    (h : ∀ s es room out, Held s es out → 0 < room → ∃ x, poll s es room = .ok x ∧ Kept Held out x)
    {s : S} {es : List ReadEvent} {out : List UInt8} (h_held : Held s es out) {rooms : List ℕ}
    (h_rooms : ∀ room ∈ rooms, 0 < room) :
    ∃ y, readRun poll rooms s es = .ok y ∧ ∃ s' es', Held s' es' (out ++ y.put) := by
  induction rooms generalizing s es out with
  | nil => exact ⟨_, rfl, s, es, (List.append_nil out).symm ▸ h_held⟩
  | cons room rooms ih =>
    have h_tail : ∀ room ∈ rooms, 0 < room := fun r hr => h_rooms r (List.mem_cons_of_mem _ hr)
    obtain ⟨x, h_poll, h_x⟩ := h s es room out h_held (h_rooms room List.mem_cons_self)
    rw [readRun, h_poll, ok_bind]
    rcases h_x with ⟨⟨e, h_err⟩, h_put⟩ | ⟨h_x, h_pending⟩
    · -- the first poll fails, and nothing of it is delivered
      rw [h_err]
      exact ⟨_, rfl, s, es, by rw [h_put, List.append_nil]; exact h_held⟩
    · cases h_result : x.result with
      | pending =>
        rw [h_pending h_result, List.append_nil] at h_x
        exact ih h_x h_tail
      | ready r =>
        cases r with
        | error e => exact ⟨_, rfl, _, _, h_x⟩
        | ok u =>
          dsimp only
          by_cases h_put : x.put = []
          · rw [if_pos h_put]
            rw [h_put] at h_x
            exact ⟨_, rfl, _, _, h_x⟩
          · obtain ⟨y, h_rest, s', es', h_y⟩ := ih h_x h_tail
            rw [if_neg h_put, h_rest]
            rw [List.append_assoc] at h_y
            exact ⟨_, rfl, s', es', h_y⟩

/-! ### Faults -/

/-- Polls that return, and keep what makes them return, make a run that returns. -/
theorem run_returns {I : S → List ReadEvent → Prop}
    (h : ∀ s es room, I s es → 0 < room → ∃ x, poll s es room = .ok x ∧ I x.state x.events)
    {s : S} {es : List ReadEvent} (h_init : I s es) {rooms : List ℕ}
    (h_rooms : ∀ room ∈ rooms, 0 < room) : ∃ y, readRun poll rooms s es = .ok y := by
  induction rooms generalizing s es with
  | nil => exact ⟨_, rfl⟩
  | cons room rooms ih =>
    obtain ⟨x, h_poll, h_x⟩ := h s es room h_init (h_rooms room List.mem_cons_self)
    obtain ⟨y, h_rest⟩ := ih h_x fun r hr => h_rooms r (List.mem_cons_of_mem _ hr)
    rw [readRun, h_poll, ok_bind]
    split
    · exact ⟨y, h_rest⟩
    · exact ⟨_, rfl⟩
    · split
      · exact ⟨_, rfl⟩
      · rw [h_rest]
        exact ⟨_, rfl⟩

/-- A run is decided by its first poll and what follows it. -/
theorem readRun_congr {s s' : S} {es es' : List ReadEvent} {room : ℕ} (rooms : List ℕ)
    (h : poll s es room = poll s' es' room) :
    readRun poll (room :: rooms) s es = readRun poll (room :: rooms) s' es' := by
  rw [readRun, readRun, h]

end Run

end V2ray
