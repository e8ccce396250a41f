import V2rayRust.Common.Net.CopyWithCapacity
import V2rayRust.Lib.Fault

/-!
# Relays

`common/net/mod.rs`: `relay` and `relay_with_atomic_counter` wait for one of two copies, one in each
direction, and drop the other. So what a side has sent is lost if the other side ends its stream
before all of it has been forwarded.

How many polls a copy needs can be told from the sizes that its reader and writer move and from
their pending answers (`Ledger`), without the bytes. A relay forwards everything exactly if each
copy gets as many polls as it needs for its last byte before one of the two has had as many as it
needs for its end (`relay_forwards_iff`).
-/

namespace V2ray

/-! ### Ledgers -/

/-- What a copy has still to do, in numbers of bytes. -/
structure Ledger where
  unwritten : ℕ
  unread : ℕ
  ended : Bool

namespace Ledger

variable (capacity : ℕ)

def Drained (b : Ledger) : Prop := b.unwritten = 0 ∧ b.unread = 0

instance (b : Ledger) : Decidable b.Drained := inferInstanceAs (Decidable (_ ∧ _))

/-- A call that moves up to `n` bytes; `none` if it was the flush at the end. -/
def go (n : ℕ) (b : Ledger) : Option Ledger :=
  if b.unwritten ≠ 0 then some { b with unwritten := b.unwritten - n }
  else if b.ended then none
  else
    let read := min (min n capacity) b.unread
    if read = 0 then some { b with ended := true } else some ⟨read, b.unread - read, false⟩

/-- The pending answers before the last byte is written, of a copy that has bytes to move. -/
def drainWaits : List IoAnswer → Ledger → ℕ∞
  | [], _ => ⊤
  | .pending :: as, b => drainWaits as b + 1
  | .err _ :: _, _ => ⊤
  | .go n :: as, b =>
    match b.go capacity n with
    | none => ⊤
    | some b => if b.Drained then 0 else drainWaits as b

/-- The pending answers before the flush at the end is done. -/
def endWaits : List IoAnswer → Ledger → ℕ∞
  | [], _ => ⊤
  | .pending :: as, b => endWaits as b + 1
  | .err _ :: _, _ => ⊤
  | .go n :: as, b =>
    match b.go capacity n with
    | none => 0
    | some b => endWaits as b

/-- The polls that a copy needs: one more than pending answers. -/
def span (as : List IoAnswer) (b : Ledger) : Span where
  drains := if b.Drained then 0 else drainWaits capacity as b + 1
  ends := endWaits capacity as b + 1

variable {capacity}

theorem one_le_ends (as : List IoAnswer) (b : Ledger) : 1 ≤ (b.span capacity as).ends :=
  le_add_self

/-- A `Pending` is one poll more to the end, and one more to the last byte if there is any left. -/
theorem span_pending (as : List IoAnswer) (b : Ledger) :
    (b.span capacity (.pending :: as)).ends = (b.span capacity as).ends + 1 ∧
      (b.span capacity as).drains = (b.span capacity (.pending :: as)).drains - 1 := by
  refine ⟨rfl, ?_⟩
  unfold span
  dsimp only
  split
  · rfl
  · show _ = drainWaits capacity as b + 1 + 1 - 1
    rw [(ENat.addLECancellable_of_ne_top ENat.one_ne_top).add_tsub_cancel_right]

/-- A drained ledger stays drained. -/
theorem Drained.go {b b' : Ledger} {n : ℕ} (h : b.Drained) (h_go : b.go capacity n = some b') :
    b'.Drained := by
  unfold Ledger.go at h_go
  rw [if_neg (not_not.mpr h.1), h.2, Nat.min_zero] at h_go
  split at h_go
  · cases h_go
  · cases h_go
    exact ⟨h.1, rfl⟩

/-- A call after which the loop goes on uses up no poll: the copy ends with as many polls as before,
and if it is drained in this poll, it is so either way. -/
theorem span_go_some {b b' : Ledger} {n : ℕ} (h_go : b.go capacity n = some b')
    (as : List IoAnswer) :
    (b.span capacity (.go n :: as)).ends = (b'.span capacity as).ends ∧
      (b'.span capacity as).drains - 1 = (b.span capacity (.go n :: as)).drains - 1 := by
  unfold span
  rw [endWaits, drainWaits, h_go]
  refine ⟨rfl, ?_⟩
  dsimp only
  by_cases h : b.Drained
  · rw [if_pos h, if_pos (h.go h_go)]
  · rw [if_neg h]
    split
    · rfl
    · rfl

/-- After the end of the stream no byte is written any more. -/
theorem drainWaits_ended {b : Ledger} (h_written : b.unwritten = 0) (h_ended : b.ended = true)
    (as : List IoAnswer) : drainWaits capacity as b = ⊤ := by
  induction as with
  | nil => rfl
  | cons a as ih =>
    cases a with
    -- only the flush is left, and it moves no byte
    | pending => rw [drainWaits, ih, top_add]
    | err message => rfl
    | go n =>
      have h_go : b.go capacity n = none := by
        unfold go
        rw [if_neg (not_not.mpr h_written), if_pos h_ended]
      rw [drainWaits, h_go]

/-- The call that flushes at the end is in the last poll, and moves no byte. -/
theorem span_go_none {b : Ledger} {n : ℕ} (h_written : b.unwritten = 0) (h_ended : b.ended = true)
    (h_go : b.go capacity n = none) (as : List IoAnswer) :
    (b.span capacity (.go n :: as)).ends = 1 ∧
      (b.span capacity as).drains = (b.span capacity (.go n :: as)).drains - 1 := by
  unfold span
  rw [endWaits, drainWaits_ended h_written h_ended, drainWaits_ended h_written h_ended, h_go]
  refine ⟨zero_add 1, ?_⟩
  dsimp only
  split
  · rfl
  · rfl

end Ledger

/-! ### The relay -/

/-- One direction: what its sender sends before the end of its stream, and what the reader and the
writer answer to the calls of the copy. -/
structure Direction where
  source : List UInt8
  answers : List IoAnswer

/-- `relay`, polled with these draws: the first branch of its `select!` copies from the outbound to
the inbound stream. -/
def relay (p : Profile) (draws : List Bool) (down up : Direction) (relayBufferSize : ℕ) :
    Except Fault (Selected CopyWithCapacity CopyWithCapacity) := do
  let capacity ← p.mul 64 lwBufferSize relayBufferSize
  selectRun (CopyWithCapacity.poll p capacity) (CopyWithCapacity.poll p capacity) draws
    (CopyWithCapacity.new down.source down.answers 0) (CopyWithCapacity.new up.source up.answers 0)

/-- `relay_with_atomic_counter`, from these values of its counters. -/
def relayWithAtomicCounter (p : Profile) (draws : List Bool) (down up : Direction)
    (inboundUp inboundDown outboundUp outboundDown : BitVec 64) (relayBufferSize : ℕ) :
    Except Fault (Selected CopyWithCapacityAtomic CopyWithCapacityAtomic) := do
  let capacity ← p.mul 64 lwBufferSize relayBufferSize
  selectRun (CopyWithCapacityAtomic.poll capacity) (CopyWithCapacityAtomic.poll capacity) draws
    (CopyWithCapacityAtomic.new down.source down.answers outboundDown inboundDown)
    (CopyWithCapacityAtomic.new up.source up.answers inboundUp outboundUp)

namespace Copying

variable {C : Type} {count : Counting C} {capacity : ℕ}

/-- The numbers of a copy. -/
def ledger (s : Copying C) : Ledger := ⟨s.buf.length - s.pos, s.source.length, s.readDone⟩

def span (capacity : ℕ) (s : Copying C) : Span := s.ledger.span capacity s.answers

/-- The answers work, and the position is in the buffer. -/
structure Fits (s : Copying C) : Prop where
  works : ∀ a ∈ s.answers, a.Works
  pos_le : s.pos ≤ s.buf.length

/-- **One call** of the loop, in numbers. -/
theorem loop_go {n : ℕ} (h_n : 0 < n) {s : Copying C} (h_pos : s.pos ≤ s.buf.length)
    (as : List IoAnswer) :
    (s.ledger.go capacity n = none ∧ s.ledger.unwritten = 0 ∧ s.ledger.ended = true ∧
        loop count capacity (.go n :: as) s = ({ s with answers := as }, .ready (.ok ()))) ∨
      ∃ s', s.ledger.go capacity n = some s'.ledger ∧ s'.pos ≤ s'.buf.length ∧
        loop count capacity (.go n :: as) s = loop count capacity as s' := by
  by_cases h_unwritten : s.pos < s.buf.length
  · -- `poll_write`
    have h_taken : (s.buf.drop s.pos).take n ≠ [] := by
      rw [Ne, List.take_eq_nil_iff, List.drop_eq_nil_iff]
      omega
    have h_go : s.ledger.go capacity n =
        some ⟨s.buf.length - s.pos - n, s.source.length, s.readDone⟩ :=
      if_pos (Nat.sub_ne_zero_of_lt h_unwritten)
    right
    rw [loop, if_neg (fun h => Nat.ne_of_lt h_unwritten h.1), if_pos h_unwritten]
    dsimp only
    rw [if_neg h_taken]
    refine ⟨_, ?_, ?_, rfl⟩
    · rw [h_go]
      unfold ledger
      simp only [List.length_take, List.length_drop, Option.some.injEq, Ledger.mk.injEq, and_true]
      omega
    · show s.pos + ((s.buf.drop s.pos).take n).length ≤ s.buf.length
      rw [List.length_take, List.length_drop]
      omega
  · have h_empty : s.pos = s.buf.length := Nat.le_antisymm h_pos (Nat.le_of_not_lt h_unwritten)
    have h_zero : ¬ s.ledger.unwritten ≠ 0 :=
      fun h => h (Nat.sub_eq_zero_of_le (Nat.le_of_eq h_empty.symm))
    cases h_done : s.readDone with
    | true =>
      -- `poll_flush`
      left
      refine ⟨?_, not_not.mp h_zero, h_done, ?_⟩
      · rw [Ledger.go, if_neg h_zero]
        exact if_pos h_done
      · rw [loop, if_neg (by simp [h_done]), if_neg h_unwritten, h_done]
    | false =>
      -- `poll_read`
      right
      have h_len : (s.source.take (min n capacity)).length = min (min n capacity) s.source.length :=
        List.length_take
      have h_go : s.ledger.go capacity n =
          if (s.source.take (min n capacity)).length = 0 then
            some ⟨s.buf.length - s.pos, s.source.length, true⟩
          else
            some ⟨(s.source.take (min n capacity)).length,
              s.source.length - (s.source.take (min n capacity)).length, false⟩ := by
        rw [Ledger.go, if_neg h_zero, if_neg (by unfold ledger; simp [h_done]), h_len]
        rfl
      rw [loop, if_pos ⟨h_empty, by rw [h_done]; rfl⟩, h_go]
      dsimp only
      by_cases h_none : s.source.take (min n capacity) = []
      · rw [if_pos h_none, if_pos (List.length_eq_zero_iff.mpr h_none)]
        refine ⟨_, ?_, ?_, rfl⟩
        · unfold ledger
          simp only [h_none, List.length_nil, List.drop_zero]
        · exact h_pos
      · rw [if_neg h_none, if_neg (mt List.length_eq_zero_iff.mp h_none)]
        refine ⟨_, ?_, Nat.zero_le _, rfl⟩
        unfold ledger
        rw [List.length_drop, h_done]
        rfl

/-- **A poll**, in numbers. What comes after its answers needs a poll less, or the copy has
ended. -/
theorem loop_span {as : List IoAnswer} {s : Copying C} (h_pos : s.pos ≤ s.buf.length)
    (h_works : ∀ a ∈ as, a.Works) {s' : Copying C} {r : Poll (Except String Unit)}
    (h : loop count capacity as s = (s', r)) :
    (s'.span capacity).drains = (s.ledger.span capacity as).drains - 1 ∧
      (r = .pending → s'.Fits ∧
        (s.ledger.span capacity as).ends = (s'.span capacity).ends + 1) ∧
      (r ≠ .pending → (s.ledger.span capacity as).ends = 1) := by
  induction as generalizing s with
  | nil =>
    cases h
    -- no answer is left, and the copy stays pending for ever
    refine ⟨?_, fun _ => ⟨⟨fun a h_a => (by cases h_a), h_pos⟩, ?_⟩, fun h_ne => absurd rfl h_ne⟩
    · show (s.ledger.span capacity []).drains = _
      unfold Ledger.span
      dsimp only
      split
      · rfl
      · rfl
    · show (⊤ : ℕ∞) + 1 = ⊤ + 1 + 1
      rw [top_add, top_add]
  | cons a as ih =>
    obtain ⟨h_a, h_as⟩ := List.forall_mem_cons.mp h_works
    cases a with
    | pending =>
      cases h
      obtain ⟨h_ends, h_drains⟩ := @Ledger.span_pending capacity as s.ledger
      exact ⟨h_drains, fun _ => ⟨⟨h_as, h_pos⟩, h_ends⟩, fun h_ne => absurd rfl h_ne⟩
    | err message => exact h_a.elim
    | go n =>
      rcases @loop_go C count capacity n h_a s h_pos as with
        ⟨h_go, h_written, h_ended, h_loop⟩ | ⟨s₁, h_go, h_pos₁, h_loop⟩
      · -- the flush ends the copy
        rw [h_loop] at h
        cases h
        obtain ⟨h_ends, h_drains⟩ := Ledger.span_go_none h_written h_ended h_go as
        exact ⟨h_drains, fun h_eq => (by cases h_eq), fun _ => h_ends⟩
      · -- the poll goes on with the next call
        rw [h_loop] at h
        obtain ⟨h_ends, h_drains⟩ := Ledger.span_go_some h_go as
        obtain ⟨ih_drains, ih_pending, ih_ready⟩ := ih h_pos₁ h_as h
        refine ⟨ih_drains.trans h_drains, fun h_r => ?_, fun h_r => h_ends.trans (ih_ready h_r)⟩
        obtain ⟨h_fits, h_eq⟩ := ih_pending h_r
        exact ⟨h_fits, h_ends.trans h_eq⟩

/-- Polls that run the loop and return what it returns, if they do not panic. The loop has `f` of
the counters. -/
def Looped {D α : Type} (count : Counting D) (capacity : ℕ) (f : C → D)
    (poll : Copying C → Except Fault (Copying C × Poll (Except String α))) : Prop :=
  ∀ s x, poll s = .ok x → ∃ r, loop count capacity s.answers (s.map f) = (x.1.map f, r) ∧
    (x.2 = .pending ↔ r = .pending)

section Looped

variable {D α : Type} {count : Counting D} {f : C → D}
  {poll : Copying C → Except Fault (Copying C × Poll (Except String α))}

theorem Fits.map {s : Copying C} (h : s.Fits) (f : C → D) : (s.map f).Fits := ⟨h.works, h.pos_le⟩

/-- A copy comes to its end in the poll that its ledger tells. -/
theorem Looped.spans (h_looped : Looped count capacity f poll) :
    Spans poll Fits (span capacity) where
  pos _ := Ledger.one_le_ends _ _
  fits s s' h h_poll := by
    obtain ⟨r, h_loop, h_pending⟩ := h_looped s _ h_poll
    have h_fits := ((loop_span (h.map f).pos_le (h.map f).works h_loop).2.1 (h_pending.mp rfl)).1
    exact ⟨h_fits.works, h_fits.pos_le⟩
  pending s s' h h_poll := by
    obtain ⟨r, h_loop, h_pending⟩ := h_looped s _ h_poll
    exact ((loop_span (h.map f).pos_le (h.map f).works h_loop).2.1 (h_pending.mp rfl)).2
  ready s s' a h h_poll := by
    obtain ⟨r, h_loop, h_pending⟩ := h_looped s _ h_poll
    exact (loop_span (h.map f).pos_le (h.map f).works h_loop).2.2 fun h_r => (by cases h_pending.mpr h_r)
  drains s x h h_poll := by
    obtain ⟨r, h_loop, -⟩ := h_looped s x h_poll
    exact (loop_span (h.map f).pos_le (h.map f).works h_loop).1

/-- A poll loses no byte and makes none. -/
theorem Looped.conserves (h_looped : Looped count capacity f poll) {total : List UInt8}
    (s : Copying C) (x : Copying C × Poll (Except String α)) (h : s.Conserves total)
    (h_poll : poll s = .ok x) : x.1.Conserves total := by
  obtain ⟨r, h_loop, -⟩ := h_looped s x h_poll
  have h_kept : Conserves total (loop count capacity s.answers (s.map f)).1 :=
    @conserves_poll D count capacity total (s.map f) h
  rw [h_loop] at h_kept
  exact h_kept

end Looped

/-- Every byte that has been read is written, and that is all that was sent. -/
def Forwarded (d : Direction) (s : Copying C) : Prop :=
  s.out ++ s.source = d.source ∧ s.out = d.source

/-- What is forwarded can be told from the ledger. -/
theorem forwarded_iff {d : Direction} {s : Copying C} (h : Conserves d.source s) :
    Forwarded d s ↔ s.ledger.Drained := by
  unfold Forwarded Ledger.Drained ledger
  unfold Conserves at h
  rw [Nat.sub_eq_zero_iff_le, ← List.drop_eq_nil_iff, List.length_eq_zero_iff]
  constructor
  · rintro ⟨h_read, h_out⟩
    -- what is out is all there was, so nothing can be left
    have h_source : s.source = [] := by
      rw [h_out] at h_read
      exact List.append_right_eq_self.mp h_read
    rw [h_source, List.append_nil, h_out] at h
    exact ⟨List.append_right_eq_self.mp h, h_source⟩
  · rintro ⟨h_written, h_source⟩
    rw [h_written, h_source, List.append_nil, List.append_nil] at h
    rw [h_source, List.append_nil]
    exact ⟨h, h⟩

/-- No poll is needed for the last byte exactly when all is read and written. -/
theorem drains_eq_zero_iff {s : Copying C} : (s.span capacity).drains = 0 ↔ s.ledger.Drained := by
  unfold span Ledger.span
  dsimp only
  split
  · next h => exact ⟨fun _ => h, fun _ => rfl⟩
  · next h =>
    refine ⟨fun h_zero => ?_, fun h_drained => absurd h_drained h⟩
    exact absurd (add_eq_zero.mp h_zero).2 one_ne_zero

end Copying

/-- `CopyWithCapacity::poll` is the loop of the copy with its own counter. -/
theorem CopyWithCapacity.looped_poll (p : Profile) (capacity : ℕ) :
    Copying.Looped (counting p) capacity Except.ok (poll p capacity) := by
  intro s x h_poll
  obtain ⟨h_state, h_answer⟩ := poll_eq_ok h_poll
  refine ⟨_, Prod.ext h_state rfl, ?_⟩
  rw [h_answer]
  show _ ↔ (Copying.poll (counting p) capacity (s.map .ok)).2 = .pending
  match (Copying.poll (counting p) capacity (s.map .ok)).2 with
  | .pending => exact ⟨fun _ => rfl, fun _ => rfl⟩
  | .ready r => exact ⟨fun h => (by cases h), fun h => (by cases h)⟩

theorem CopyWithCapacityAtomic.looped_poll (capacity : ℕ) :
    Copying.Looped counting capacity id (poll capacity) := by
  intro s x h_poll
  cases h_poll
  exact ⟨_, rfl, Iff.rfl⟩

/-! ### What a relay forwards -/

namespace Direction

/-- No call fails. -/
def Works (d : Direction) : Prop := ∀ a ∈ d.answers, a.Works

/-- The polls that the copy of this direction needs. -/
def span (capacity : ℕ) (d : Direction) : Span :=
  Ledger.span capacity d.answers ⟨0, d.source.length, false⟩

/-- When one of the two copies has had as many polls as it needs for its end, each of them has had
as many as it needs for its last byte. In the round `n`, the last one, the copy that is drawn is
polled first, and if it ends then the other one is not polled any more. -/
def InTime (capacity : ℕ) (draws : List Bool) (down up : Direction) : Prop :=
  ∃ (n : ℕ) (downFirst : Bool), min (down.span capacity).ends (up.span capacity).ends = n + 1 ∧
    draws[n]? = some downFirst ∧
    Span.BothInTime downFirst (down.span capacity) (up.span capacity)

end Direction

/-- A copy of this direction, before its first poll. -/
structure Copying.Begins {C : Type} (d : Direction) (s : Copying C) : Prop where
  source : s.source = d.source
  answers : s.answers = d.answers
  readDone : s.readDone = false
  pos : s.pos = 0
  buf : s.buf = []
  out : s.out = []

namespace Copying.Begins

variable {C : Type} {d : Direction} {s : Copying C}

theorem fits (h : s.Begins d) (h_works : d.Works) : s.Fits := by
  refine ⟨?_, ?_⟩
  · rw [h.answers]
    exact h_works
  · rw [h.pos]
    exact Nat.zero_le _

theorem conserves (h : s.Begins d) : s.Conserves d.source := by
  unfold Conserves
  rw [h.out, h.buf, h.source, List.drop_nil]
  rfl

theorem span_eq (h : s.Begins d) (capacity : ℕ) : s.span capacity = d.span capacity := by
  unfold span ledger Direction.span
  rw [h.answers, h.source, h.buf, h.readDone, List.length_nil, Nat.zero_sub]

end Copying.Begins

/-- Two copies of which one is waited for, whatever they count. -/
theorem selectRun_forwards_iff {C D α : Type} {count : Counting D} {capacity : ℕ} {c : C → D}
    {poll : Copying C → Except Fault (Copying C × Poll (Except String α))}
    (h_looped : Copying.Looped count capacity c poll) {draws : List Bool} {down up : Direction}
    (h_down : down.Works) (h_up : up.Works) {f g : Copying C} (h_f : f.Begins down)
    (h_g : g.Begins up) {x : Selected (Copying C) (Copying C)}
    (h_run : selectRun poll poll draws f g = .ok x) (h_done : x.done = true) :
    x.left.Forwarded down ∧ x.right.Forwarded up ↔ Direction.InTime capacity draws down up := by
  obtain ⟨h_left, h_right⟩ := selectRun_keeps h_looped.conserves h_looped.conserves
    h_f.conserves h_g.conserves h_run
  -- the dropped copy has had as many polls as the other one, or one less
  obtain ⟨n, first, h_n, h_draw, h_iff⟩ := selectRun_drained_iff h_looped.spans h_looped.spans
    (h_f.fits h_down) (h_g.fits h_up) h_run h_done
  rw [h_f.span_eq, h_g.span_eq] at h_n h_iff
  rw [Copying.forwarded_iff h_left, Copying.forwarded_iff h_right,
    ← Copying.drains_eq_zero_iff, ← Copying.drains_eq_zero_iff, h_iff]
  constructor
  · exact fun h => ⟨n, first, h_n, h_draw, h⟩
  · rintro ⟨n', first', h_n', h_draw', h⟩
    -- both numbers of the last round are the same
    have h_eq : n = n' := by
      have h_cast : (n : ℕ∞) + 1 = n' + 1 := h_n.symm.trans h_n'
      exact Nat.succ.inj (Nat.cast_injective h_cast)
    rw [← h_eq, h_draw] at h_draw'
    cases h_draw'
    exact h

/-- **Both relays** forward everything in both directions when both copies are in time, and only
then: `select!` drops the copy that has not ended yet, with the bytes that are in its buffer. -/
theorem relay_forwards_iff (p : Profile) (draws : List Bool) {down up : Direction}
    (h_down : down.Works) (h_up : up.Works)
    (inboundUp inboundDown outboundUp outboundDown : BitVec 64) (relayBufferSize : ℕ) :
    (∀ x, relay p draws down up relayBufferSize = .ok x → x.done = true →
      (x.left.Forwarded down ∧ x.right.Forwarded up ↔
        Direction.InTime (lwBufferSize * relayBufferSize % 2 ^ 64) draws down up)) ∧
    (∀ x, relayWithAtomicCounter p draws down up inboundUp inboundDown outboundUp outboundDown
        relayBufferSize = .ok x → x.done = true →
      (x.left.Forwarded down ∧ x.right.Forwarded up ↔
        Direction.InTime (lwBufferSize * relayBufferSize % 2 ^ 64) draws down up)) := by
  constructor
  · -- both copies have the same capacity, and run under the same `select!`
    intro x h_relay h_done
    obtain ⟨capacity, h_capacity, h_run⟩ := bind_eq_ok.mp h_relay
    rw [← Profile.mul_eq_ok h_capacity]
    exact selectRun_forwards_iff (CopyWithCapacity.looped_poll p capacity) h_down h_up
      ⟨rfl, rfl, rfl, rfl, rfl, rfl⟩ ⟨rfl, rfl, rfl, rfl, rfl, rfl⟩ h_run h_done
  · -- the other relay counts in other counters, and forwards the same
    intro x h_relay h_done
    obtain ⟨capacity, h_capacity, h_run⟩ := bind_eq_ok.mp h_relay
    rw [← Profile.mul_eq_ok h_capacity]
    exact selectRun_forwards_iff (CopyWithCapacityAtomic.looped_poll capacity) h_down h_up
      ⟨rfl, rfl, rfl, rfl, rfl, rfl⟩ ⟨rfl, rfl, rfl, rfl, rfl, rfl⟩ h_run h_done

/-- A client that has sent everything and is silent, and a server that ends its stream. -/
theorem relay_forwards_iff_silent :
    Direction.InTime (1024 * 4 % 2 ^ 64) [false]
      ⟨[7, 8], [.go 9, .go 1, .go 1, .go 9, .go 9]⟩ ⟨[1], [.go 9, .go 9, .pending]⟩ := by
  have h_down : Direction.Works ⟨[7, 8], [.go 9, .go 1, .go 1, .go 9, .go 9]⟩ := by
    simp [Direction.Works, IoAnswer.Works]
  have h_up : Direction.Works ⟨[1], [.go 9, .go 9, .pending]⟩ := by
    simp [Direction.Works, IoAnswer.Works]
  exact ((relay_forwards_iff .debug [false] h_down h_up 0 0 0 0 4).1 _ rfl rfl).mp
    ⟨⟨rfl, rfl⟩, rfl, rfl⟩

/-- The client ends its stream while the server has sent a byte that has not been forwarded: the
relay returns without it. -/
theorem relay_drops :
    ¬ ∀ (p : Profile) (draws : List Bool) (down up : Direction), down.Works → up.Works →
      ∀ (relayBufferSize : ℕ) (x : Selected CopyWithCapacity CopyWithCapacity),
        relay p draws down up relayBufferSize = .ok x → x.done = true →
          x.left.Forwarded down ∧ x.right.Forwarded up := by
  intro h_all
  have h := h_all .debug [true] ⟨[2], [.pending, .go 9, .go 9, .go 9, .go 9]⟩
    ⟨[1], [.go 9, .go 9, .go 9, .go 9]⟩ (by simp [Direction.Works, IoAnswer.Works])
    (by simp [Direction.Works, IoAnswer.Works]) 4 _ rfl rfl
  exact absurd h.1.2 (by decide)

end V2ray
