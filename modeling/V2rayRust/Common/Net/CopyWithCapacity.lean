import V2rayRust.Common.Basic
import V2rayRust.Lib.Select

/-!
# The copy loops

`common/net/copy_with_capacity.rs`: `CopyWithCapacity` and `CopyWithCapacityAtomic` read into a
buffer, write what it holds, and flush when the reader has ended. They differ in what they count,
and in what they do when a counter leaves `u64`: `fetch_add` wraps, and `+=` panics in a build with
overflow checks and wraps in one without.

What the reader and the writer answer to the calls of a loop comes in the order of these calls. The
bytes that are read are those of a stream that ends after the last one.

The loop is one definition over what is counted, and what it does with bytes does not depend on that
(`Alike.poll`). What is counted goes along in an account of what was read and written (`Sound`): a
counter is what it was plus the bytes, modulo `2 ^ 64`, and the panic comes where the sum would be
`2 ^ 64` (`grown`).
-/

namespace V2ray

/-- The answer to a call of `poll_read`, `poll_write` or `poll_flush`: `go n` moves up to `n`
bytes. -/
inductive IoAnswer
  | pending
  | err (message : String)
  | go (n : ℕ)
  deriving DecidableEq

/-- What a loop counts, in what it keeps for this. -/
structure Counting (C : Type) where
  onRead : ℕ → C → C
  onWrite : ℕ → C → C

/-- A copy, with the streams that it is between. -/
structure Copying (C : Type) where
  /-- what the reader has still to give -/
  source : List UInt8
  answers : List IoAnswer
  readDone : Bool
  pos : ℕ
  /-- what the last read has filled of the buffer: `cap` is its length -/
  buf : List UInt8
  counters : C
  /-- what the writer has taken -/
  out : List UInt8

namespace Copying

variable {C : Type} (count : Counting C) (capacity : ℕ)

/-- The loop: a call of `poll_read` when the buffer is empty, calls of `poll_write` while it is not,
and at the end one of `poll_flush`. -/
def loop : List IoAnswer → Copying C → Copying C × Poll (Except String Unit)
  | [], s => ({ s with answers := [] }, .pending)
  | .pending :: as, s => ({ s with answers := as }, .pending)
  | .err message :: as, s => ({ s with answers := as }, .ready (.error message))
  | .go n :: as, s =>
    if s.pos = s.buf.length ∧ !s.readDone then
      let filled := s.source.take (min n capacity)
      let s := { s with
        source := s.source.drop filled.length
        counters := count.onRead filled.length s.counters }
      if filled = [] then loop as { s with readDone := true }
      else loop as { s with pos := 0, buf := filled }
    else if s.pos < s.buf.length then
      let taken := (s.buf.drop s.pos).take n
      if taken = [] then
        ({ s with answers := as }, .ready (.error "write zero byte into writer"))
      else
        loop as { s with
          pos := s.pos + taken.length
          counters := count.onWrite taken.length s.counters
          out := s.out ++ taken }
    else ({ s with answers := as }, .ready (.ok ()))

def poll (s : Copying C) : Copying C × Poll (Except String Unit) := loop count capacity s.answers s

/-- A copy that counts something else. -/
def map {D : Type} (f : C → D) (s : Copying C) : Copying D :=
  ⟨s.source, s.answers, s.readDone, s.pos, s.buf, f s.counters, s.out⟩

end Copying

/-- `CopyWithCapacity`: `amt` counts what is written. -/
abbrev CopyWithCapacity := Copying (BitVec 64)

namespace CopyWithCapacity

/-- `*self.amt += i as u64` -/
def addAmt (p : Profile) (amt : BitVec 64) (i : ℕ) : Except Fault (BitVec 64) :=
  (p.add 64 amt.toNat i).map (BitVec.ofNat 64)

/-- `amt`, or the panic that there is in its place. -/
def counting (p : Profile) : Counting (Except Fault (BitVec 64)) where
  onRead _ amt := amt
  onWrite i amt := amt >>= fun amt => addAmt p amt i

/-- A poll that panics returns no copy, so nothing is seen of what the loop makes of it after the
panic. -/
def poll (p : Profile) (capacity : ℕ) (s : CopyWithCapacity) :
    Except Fault (CopyWithCapacity × Poll (Except String (BitVec 64))) := do
  let x := Copying.poll (counting p) capacity (s.map .ok)
  let amt ← x.1.counters
  return (x.1.map fun _ => amt, x.2.map (Except.map fun _ => amt))

/-- `copy_with_capacity_and_counter`, before its first poll. -/
def new (source : List UInt8) (answers : List IoAnswer) (counter : BitVec 64) : CopyWithCapacity :=
  ⟨source, answers, false, 0, [], counter, []⟩

end CopyWithCapacity

/-- `CopyWithCapacityAtomic`: `amt_in` counts what is read, and `amt_out` what is written. -/
abbrev CopyWithCapacityAtomic := Copying (BitVec 64 × BitVec 64)

namespace CopyWithCapacityAtomic

/-- `fetch_add` wraps in every build. -/
def counting : Counting (BitVec 64 × BitVec 64) where
  onRead n amt := (amt.1 + BitVec.ofNat 64 n, amt.2)
  onWrite i amt := (amt.1, amt.2 + BitVec.ofNat 64 i)

def poll (capacity : ℕ) (s : CopyWithCapacityAtomic) :
    Except Fault (CopyWithCapacityAtomic × Poll (Except String Unit)) :=
  .ok (Copying.poll counting capacity s)

/-- `copy_with_capacity_and_atomic_counter`, before its first poll. -/
def new (source : List UInt8) (answers : List IoAnswer) (counterIn counterOut : BitVec 64) :
    CopyWithCapacityAtomic :=
  ⟨source, answers, false, 0, [], (counterIn, counterOut), []⟩

end CopyWithCapacityAtomic

/-! ### What a copy keeps -/

/-- An answer that is not an error, and moves something if it moves. -/
def IoAnswer.Works : IoAnswer → Prop
  | pending => True
  | err _ => False
  | go n => 0 < n

namespace Copying

variable {C : Type} {count : Counting C} {capacity n : ℕ} {as : List IoAnswer} {s s' : Copying C}

/-- What a call that moves up to `n` bytes does when the loop goes on after it. -/
inductive Call (count : Counting C) (capacity n : ℕ) (s : Copying C) : Copying C → Prop
  | ended (empty : s.pos = s.buf.length) (going : s.readDone = false)
      (nothing : s.source.take (min n capacity) = []) :
      Call count capacity n s { s with
        counters := count.onRead 0 s.counters
        readDone := true }
  | read {filled : List UInt8} (empty : s.pos = s.buf.length) (going : s.readDone = false)
      (filled_eq : filled = s.source.take (min n capacity)) :
      Call count capacity n s { s with
        source := s.source.drop filled.length
        counters := count.onRead filled.length s.counters
        pos := 0
        buf := filled }
  | wrote {taken : List UInt8} (lt : s.pos < s.buf.length)
      (taken_eq : taken = (s.buf.drop s.pos).take n) :
      Call count capacity n s { s with
        pos := s.pos + taken.length
        counters := count.onWrite taken.length s.counters
        out := s.out ++ taken }

/-- How the loop comes to its end without an error: nothing is in the buffer, and the reader has
ended. -/
structure Finished (s : Copying C) : Prop where
  written : ¬ s.pos < s.buf.length
  readDone : s.pos = s.buf.length → s.readDone = true

/-- **One round of the loop**: a call after which it goes on, or it returns. -/
theorem loop_go_cases (n : ℕ) (as : List IoAnswer) (s : Copying C) :
    (∃ s', Call count capacity n s s' ∧
      loop count capacity (.go n :: as) s = loop count capacity as s') ∨
    (∃ e, loop count capacity (.go n :: as) s = ({ s with answers := as }, .ready (.error e))) ∨
    s.Finished ∧ loop count capacity (.go n :: as) s =
      ({ s with answers := as }, .ready (.ok ())) := by
  by_cases h_read : s.pos = s.buf.length ∧ !s.readDone
  · -- `poll_read`
    left
    obtain ⟨h_empty, h_going⟩ := h_read
    rw [Bool.not_eq_true'] at h_going
    -- a read of nothing is the end of the reader, and the loop goes on to its flush
    by_cases h_none : s.source.take (min n capacity) = []
    · refine ⟨_, .ended h_empty h_going h_none, ?_⟩
      rw [loop, if_pos ⟨h_empty, by rw [h_going]; rfl⟩]
      dsimp only
      rw [if_pos h_none, h_none]
      rfl
    · refine ⟨_, .read h_empty h_going rfl, ?_⟩
      rw [loop, if_pos ⟨h_empty, by rw [h_going]; rfl⟩]
      dsimp only
      rw [if_neg h_none]
  · by_cases h_lt : s.pos < s.buf.length
    · -- `poll_write`
      -- a write of nothing is the error `WriteZero`
      by_cases h_none : (s.buf.drop s.pos).take n = []
      · right
        left
        rw [loop, if_neg h_read, if_pos h_lt]
        exact ⟨_, if_pos h_none⟩
      · left
        refine ⟨_, .wrote h_lt rfl, ?_⟩
        rw [loop, if_neg h_read, if_pos h_lt]
        exact if_neg h_none
    · -- `poll_flush`
      right
      right
      -- nothing is left to write, and the reader has ended
      refine ⟨⟨h_lt, fun h_empty => ?_⟩, ?_⟩
      · by_contra h_going
        exact h_read ⟨h_empty, by rw [Bool.eq_false_iff.mpr h_going]; rfl⟩
      · rw [loop, if_neg h_read, if_neg h_lt]

/-- **What every call keeps, the loop keeps**, and it returns `Ok` only when it is finished. -/
theorem loop_keeps {P : Copying C → Prop} (h_answers : ∀ as s, P s → P { s with answers := as })
    (h_call : ∀ n s s', P s → Call count capacity n s s' → P s') (h : P s) :
    P (loop count capacity as s).1 ∧ ((loop count capacity as s).2 = .ready (.ok ()) →
      (loop count capacity as s).1.Finished) := by
  induction as generalizing s with
  | nil => exact ⟨h_answers [] s h, fun h_eq => (by cases h_eq)⟩
  | cons a as ih =>
    cases a with
    | pending | err => exact ⟨h_answers as s h, fun h_eq => (by cases h_eq)⟩
    | go n =>
      rcases @loop_go_cases _ count capacity n as s with
          ⟨s', h_step, h_loop⟩ | ⟨e, h_loop⟩ | ⟨h_finished, h_loop⟩
      · rw [h_loop]
        exact ih (h_call n s s' h h_step)
      · rw [h_loop]
        exact ⟨h_answers as s h, fun h_eq => (by cases h_eq)⟩
      · rw [h_loop]
        exact ⟨h_answers as s h, fun _ => ⟨h_finished.written, h_finished.readDone⟩⟩

/-- What has been written, what is in the buffer and what is still to be read. -/
def Conserves (total : List UInt8) (s : Copying C) : Prop :=
  s.out ++ s.buf.drop s.pos ++ s.source = total

/-- A call loses no byte and makes none. -/
theorem Call.conserves {total : List UInt8} (h : Conserves total s)
    (h_call : Call count capacity n s s') : Conserves total s' := by
  have h_empty (h_eq : s.pos = s.buf.length) : s.out ++ s.source = total := by
    unfold Conserves at h
    rwa [List.drop_eq_nil_of_le (Nat.le_of_eq h_eq.symm), List.append_nil] at h
  cases h_call with
  | ended => exact h
  | @read filled empty _ filled_eq =>
    -- what is read goes into the buffer, which is empty
    have h_split : filled ++ s.source.drop filled.length = s.source := by
      rw [← List.prefix_iff_eq_append, filled_eq]
      exact List.take_prefix _ _
    show s.out ++ filled.drop 0 ++ s.source.drop filled.length = total
    rw [List.drop_zero, List.append_assoc, h_split]
    exact h_empty empty
  | @wrote taken lt taken_eq =>
    -- what is taken goes from the buffer to what is written
    have h_split : taken ++ (s.buf.drop s.pos).drop taken.length = s.buf.drop s.pos := by
      rw [← List.prefix_iff_eq_append, taken_eq]
      exact List.take_prefix _ _
    show s.out ++ taken ++ s.buf.drop (s.pos + taken.length) ++ s.source = total
    rw [← List.drop_drop, List.append_assoc s.out, h_split]
    exact h

theorem conserves_poll {total : List UInt8} {s : Copying C} (h : Conserves total s) :
    Conserves total (poll count capacity s).1 :=
  (loop_keeps (fun _ _ h => h) (fun _ _ _ h h_call => h_call.conserves h) h).1

/-! ### What a copy has read -/

/-- The reader has given `read` of what it has to give, and so much of this is written and so much
is in the buffer. -/
structure Accounted (total : List UInt8) (capacity : ℕ) (s : Copying C) (read : List UInt8) :
    Prop where
  read_eq : total = read ++ s.source
  out_prefix : s.out <+: read
  ahead : read.length - s.out.length = s.buf.length - s.pos
  ahead_le : read.length - s.out.length ≤ capacity
  pos_le : s.pos ≤ s.buf.length
  buf_le : s.buf.length ≤ capacity

/-- The counters hold what `value` says of the numbers of bytes that are read and written. -/
structure Adds (count : Counting C) (value : ℕ → ℕ → C) : Prop where
  onRead : ∀ n r w, count.onRead n (value r w) = value (r + n) w
  onWrite : ∀ n r w, count.onWrite n (value r w) = value r (w + n)

/-- What every call of the loop keeps. -/
structure Sound (total : List UInt8) (capacity : ℕ) (value : ℕ → ℕ → C) (s : Copying C) : Prop where
  conserves : Conserves total s
  pos_le : s.pos ≤ s.buf.length
  buf_le : s.buf.length ≤ capacity
  counters_eq : s.counters = value (s.out ++ s.buf.drop s.pos).length s.out.length

variable {total : List UInt8} {value : ℕ → ℕ → C}

/-- A call keeps the account of what is counted. -/
theorem Call.sound (h_value : Adds count value) (h : Sound total capacity value s)
    (h_call : Call count capacity n s s') : Sound total capacity value s' := by
  have h_conserves := h_call.conserves h.conserves
  have h_counters := h.counters_eq
  rw [List.length_append, List.length_drop] at h_counters
  cases h_call with
  | ended =>
    refine ⟨h_conserves, h.pos_le, h.buf_le, ?_⟩
    show count.onRead 0 s.counters = _
    rw [h.counters_eq, h_value.onRead]
    rfl
  | @read filled empty _ filled_eq =>
    refine ⟨h_conserves, Nat.zero_le _, ?_, ?_⟩
    · show filled.length ≤ capacity
      rw [filled_eq, List.length_take]
      omega
    · show count.onRead filled.length s.counters =
        value (s.out ++ filled.drop 0).length s.out.length
      -- nothing was in the buffer
      rw [h_counters, empty, Nat.sub_self, h_value.onRead, List.drop_zero, List.length_append]
      rfl
  | @wrote taken lt taken_eq =>
    have h_len : taken.length ≤ s.buf.length - s.pos := by
      rw [taken_eq, List.length_take, List.length_drop]
      exact Nat.min_le_right _ _
    refine ⟨h_conserves, ?_, h.buf_le, ?_⟩
    · show s.pos + taken.length ≤ s.buf.length
      omega
    · show count.onWrite taken.length s.counters =
        value (s.out ++ taken ++ s.buf.drop (s.pos + taken.length)).length (s.out ++ taken).length
      rw [h_counters, h_value.onWrite]
      simp only [List.length_append, List.length_drop]
      congr 1
      omega

/-- What a sound copy has read is what the writer took, followed by what is still in the buffer. -/
theorem Sound.accounted (h : Sound total capacity value s) :
    Accounted total capacity s (s.out ++ s.buf.drop s.pos) where
  read_eq := h.conserves.symm
  out_prefix := List.prefix_append _ _
  ahead := by rw [List.length_append, Nat.add_sub_cancel_left, List.length_drop]
  ahead_le := by
    rw [List.length_append, Nat.add_sub_cancel_left, List.length_drop]
    exact Nat.le_trans (Nat.sub_le _ _) h.buf_le
  pos_le := h.pos_le
  buf_le := h.buf_le

/-- **A poll** of a copy. -/
theorem sound_poll (h_value : Adds count value) (h : Sound total capacity value s) :
    Sound total capacity value (poll count capacity s).1 ∧
      ((poll count capacity s).2 = .ready (.ok ()) → (poll count capacity s).1.Finished) := by
  refine loop_keeps (fun as s h => ?_) (fun n s s' h h_call => h_call.sound h_value h) h
  exact ⟨h.conserves, h.pos_le, h.buf_le, h.counters_eq⟩

/-- At the end of a copy that is finished all that was read is written. -/
theorem Finished.out_eq (h : s.Finished) (h_sound : Sound total capacity value s) :
    s.readDone = true ∧ s.out = s.out ++ s.buf.drop s.pos := by
  have h_pos : s.pos = s.buf.length :=
    Nat.le_antisymm h_sound.pos_le (Nat.le_of_not_lt h.written)
  refine ⟨h.readDone h_pos, ?_⟩
  rw [h_pos, List.drop_length, List.append_nil]

/-! ### Two copies -/

theorem map_map_const {D : Type} {f : D → C} {d : D} (h : s.counters = f d) :
    (s.map fun _ => d).map f = s := by
  unfold map
  rw [← h]

/-- What is counted makes no difference to the loop. -/
theorem loop_map {D : Type} {count' : Counting D} {f : C → D}
    (h_onRead : ∀ n c, f (count.onRead n c) = count'.onRead n (f c))
    (h_onWrite : ∀ n c, f (count.onWrite n c) = count'.onWrite n (f c)) (as : List IoAnswer)
    (s : Copying C) : loop count' capacity as (s.map f) =
      ((loop count capacity as s).1.map f, (loop count capacity as s).2) := by
  induction as generalizing s with
  | nil => rfl
  | cons a as ih =>
    cases a with
    | pending | err => rfl
    | go n =>
      rw [loop, loop]
      have h_pos : (s.map f).pos = s.pos := rfl
      have h_buf : (s.map f).buf = s.buf := rfl
      have h_done : (s.map f).readDone = s.readDone := rfl
      rw [h_pos, h_buf, h_done]
      -- the loop looks at the buffer and at the end of the stream, never at the counters
      by_cases h_read : s.pos = s.buf.length ∧ !s.readDone
      · rw [if_pos h_read, if_pos h_read]
        let filled := s.source.take (min n capacity)
        let s₁ := { s with
          source := s.source.drop filled.length
          counters := count.onRead filled.length s.counters }
        have h_counters : count'.onRead filled.length (f s.counters) = f s₁.counters :=
          (h_onRead _ _).symm
        dsimp only [map]
        rw [h_counters]
        split
        · exact ih { s₁ with readDone := true }
        · exact ih { s₁ with pos := 0, buf := filled }
      · rw [if_neg h_read, if_neg h_read]
        by_cases h_lt : s.pos < s.buf.length
        · rw [if_pos h_lt, if_pos h_lt]
          let taken := (s.buf.drop s.pos).take n
          let s₁ := { s with
            pos := s.pos + taken.length
            counters := count.onWrite taken.length s.counters
            out := s.out ++ taken }
          have h_counters : count'.onWrite taken.length (f s.counters) = f s₁.counters :=
            (h_onWrite _ _).symm
          dsimp only [map]
          rw [h_counters]
          split
          · rfl
          · exact ih s₁
        · rw [if_neg h_lt, if_neg h_lt]
          rfl

/-- Nothing is counted. -/
def uncounted : Counting Unit := ⟨fun _ _ => (), fun _ _ => ()⟩

/-- Copies that differ in what they have counted. -/
def Alike {D : Type} (s : Copying C) (t : Copying D) : Prop :=
  s.map (fun _ => ()) = t.map fun _ => ()

theorem poll_map (s : Copying C) : poll uncounted capacity (s.map fun _ => ()) =
    ((poll count capacity s).1.map (fun _ => ()), (poll count capacity s).2) :=
  loop_map (fun _ _ => rfl) (fun _ _ => rfl) s.answers s

/-- **Two copies that differ in what they count** do the same. -/
theorem Alike.poll {D : Type} {count' : Counting D} {t : Copying D} (h : Alike s t) :
    Alike (poll count capacity s).1 (Copying.poll count' capacity t).1 ∧
      (Copying.poll count' capacity t).2 = (Copying.poll count capacity s).2 := by
  have h_both := (@poll_map _ count capacity s).symm.trans
    ((congrArg (Copying.poll uncounted capacity) h).trans (@poll_map _ count' capacity t))
  exact ⟨(Prod.mk.inj h_both).1, (Prod.mk.inj h_both).2.symm⟩

end Copying

/-- A copy writes, and takes nothing back. -/
theorem Copying.length_out_poll {C : Type} (count : Counting C) (capacity : ℕ) (s : Copying C) :
    s.out.length ≤ (Copying.poll count capacity s).1.out.length := by
  refine (loop_keeps (P := fun s' => s.out.length ≤ s'.out.length) (fun _ _ h => h) ?_
    (Nat.le_refl _)).1
  intro n s₁ s₂ h h_call
  cases h_call with
  | ended | read => exact h
  | wrote =>
    show _ ≤ (s₁.out ++ _).length
    rw [List.length_append]
    exact Nat.le_add_right_of_le h

/-! ### The counters -/

namespace CopyWithCapacity

/-- A counter that has grown by `w`, or the panic on the way. -/
def grown (p : Profile) (counter : BitVec 64) (w : ℕ) : Except Fault (BitVec 64) :=
  if p = .debug ∧ 2 ^ 64 ≤ counter.toNat + w then .error .overflow
  else .ok (counter + BitVec.ofNat 64 w)

theorem grown_zero (p : Profile) (counter : BitVec 64) : grown p counter 0 = .ok counter := by
  have h_lt := counter.isLt
  rw [grown, if_neg (by omega), BitVec.add_zero]

/-- An addition to a counter that goes through is the one modulo `2 ^ 64`; in a build with overflow
checks it has not wrapped. -/
theorem grown_eq_ok {p : Profile} {counter amt : BitVec 64} {w : ℕ}
    (h : grown p counter w = .ok amt) :
    amt = counter + BitVec.ofNat 64 w ∧ (p = .debug → counter.toNat + w < 2 ^ 64) := by
  unfold grown at h
  split at h
  · cases h
  · next h_fits =>
    cases h
    exact ⟨rfl, fun h_debug => Nat.lt_of_not_le fun h_le => h_fits ⟨h_debug, h_le⟩⟩

theorem grown_eq_error {p : Profile} {counter : BitVec 64} {w : ℕ} {e : Fault} :
    grown p counter w = .error e ↔
      e = .overflow ∧ p = .debug ∧ 2 ^ 64 ≤ counter.toNat + w := by
  unfold grown
  split
  · next h_past => exact ⟨fun h => (by cases h; exact ⟨rfl, h_past⟩), fun h => (by rw [h.1])⟩
  · next h_fits => exact ⟨fun h => (by cases h), fun h => absurd h.2 h_fits⟩

/-- Counting `n` more bytes. Once the counter has panicked it stays so. -/
theorem grown_add (p : Profile) (counter : BitVec 64) (w n : ℕ) :
    (grown p counter w >>= fun amt => addAmt p amt n) = grown p counter (w + n) := by
  cases h : grown p counter w with
  | error e =>
    obtain ⟨rfl, h_debug, h_le⟩ := grown_eq_error.mp h
    exact (grown_eq_error.mpr ⟨rfl, h_debug, by omega⟩).symm
  | ok amt =>
    obtain ⟨rfl, h_lt⟩ := grown_eq_ok h
    rw [ok_bind, addAmt, BitVec.toNat_add, BitVec.toNat_ofNat, Nat.add_mod_mod]
    have h_sum : BitVec.ofNat 64 ((counter.toNat + w) % 2 ^ 64 + n) =
        counter + BitVec.ofNat 64 (w + n) := by
      apply BitVec.eq_of_toNat_eq
      rw [BitVec.toNat_ofNat, BitVec.toNat_add, BitVec.toNat_ofNat]
      omega
    cases p with
    | debug =>
      -- the sum has not left `u64` so far
      rw [Nat.mod_eq_of_lt (h_lt rfl)] at h_sum ⊢
      unfold grown Profile.add
      by_cases h_fits : counter.toNat + w + n < 2 ^ 64
      · rw [if_pos h_fits, if_neg (by omega)]
        exact congrArg _ h_sum
      · rw [if_neg h_fits, if_pos ⟨rfl, by omega⟩]
        rfl
    | release =>
      rw [Profile.release_add, grown, if_neg (fun h => by cases h.1), ← h_sum]
      refine congrArg Except.ok (BitVec.eq_of_toNat_eq ?_)
      rw [BitVec.toNat_ofNat, BitVec.toNat_ofNat, Nat.mod_mod]

theorem adds (p : Profile) (counter : BitVec 64) :
    Copying.Adds (counting p) fun _ w => grown p counter w where
  onRead _ _ _ := rfl
  onWrite n _ w := grown_add p counter w n

end CopyWithCapacity

/-- `fetch_add` adds what is read to the one counter and what is written to the other one, modulo `2
^ 64`. -/
theorem CopyWithCapacityAtomic.adds (counterIn counterOut : BitVec 64) :
    Copying.Adds CopyWithCapacityAtomic.counting fun r w =>
      (counterIn + BitVec.ofNat 64 r, counterOut + BitVec.ofNat 64 w) where
  onRead n r w := by
    show (_ + _ + BitVec.ofNat 64 n, _) = _
    rw [BitVec.add_assoc, ← BitVec.ofNat_add]
  onWrite n r w := by
    show (_, _ + _ + BitVec.ofNat 64 n) = _
    rw [BitVec.add_assoc, ← BitVec.ofNat_add]

section Polls

variable {total : List UInt8} {capacity : ℕ} {p : Profile}

namespace CopyWithCapacity

/-- The account of a copy that has not panicked. -/
abbrev SoundFrom (total : List UInt8) (capacity : ℕ) (p : Profile) (counter : BitVec 64)
    (s : CopyWithCapacity) : Prop :=
  Copying.Sound total capacity (fun _ w => grown p counter w) (s.map .ok)

theorem SoundFrom.counters {counter : BitVec 64} {s : CopyWithCapacity}
    (h : SoundFrom total capacity p counter s) :
    s.counters = counter + BitVec.ofNat 64 s.out.length ∧
      (p = .debug → counter.toNat + s.out.length < 2 ^ 64) :=
  grown_eq_ok h.counters_eq.symm

/-- A poll that returns has left the loop with a counter. -/
theorem poll_eq_ok {s : CopyWithCapacity} {x : CopyWithCapacity × Poll (Except String (BitVec 64))}
    (h : poll p capacity s = .ok x) :
    (Copying.poll (counting p) capacity (s.map .ok)).1 = x.1.map .ok ∧
      x.2 = (Copying.poll (counting p) capacity (s.map .ok)).2.map
        (Except.map fun _ => x.1.counters) := by
  obtain ⟨amt, h_amt, h⟩ := bind_eq_ok.mp h
  cases h
  exact ⟨(Copying.map_map_const h_amt).symm, rfl⟩

/-- A poll keeps the account, and what it answers is the counter of a copy that is finished. -/
theorem sound_poll (counter : BitVec 64) (s : CopyWithCapacity)
    (x : CopyWithCapacity × Poll (Except String (BitVec 64)))
    (h : SoundFrom total capacity p counter s) (h_poll : poll p capacity s = .ok x) :
    SoundFrom total capacity p counter x.1 ∧
      ∀ a, x.2 = .ready a → ∀ n, a = .ok n → x.1.Finished ∧ n = x.1.counters := by
  obtain ⟨h_sound, h_finished⟩ := Copying.sound_poll (adds p counter) h
  obtain ⟨h_state, h_answer⟩ := poll_eq_ok h_poll
  rw [h_state] at h_sound h_finished
  refine ⟨h_sound, fun a h_a n h_n => ?_⟩
  subst h_n
  rw [h_a] at h_answer
  -- only `Ok` is answered with the count
  cases h_loop : (Copying.poll (counting p) capacity (s.map .ok)).2 with
  | pending => rw [h_loop] at h_answer; cases h_answer
  | ready r =>
    rw [h_loop] at h_answer
    cases r with
    | error message => cases h_answer
    | ok u =>
      obtain ⟨h_written, h_done⟩ := h_finished h_loop
      cases h_answer
      exact ⟨⟨h_written, h_done⟩, rfl⟩

/-- Both copies at a poll. The one whose counter leaves `u64` panics, in a build that checks. -/
theorem inStep_poll (counter : BitVec 64) (s : CopyWithCapacity) (t : CopyWithCapacityAtomic)
    (h : SoundFrom total capacity p counter s ∧ s.Alike t) :
    ∃ y, CopyWithCapacityAtomic.poll capacity t = .ok y ∧
      InStep (fun s t => SoundFrom total capacity p counter s ∧ Copying.Alike s t)
        (fun e t => e = .overflow ∧ p = .debug ∧ 2 ^ 64 ≤ counter.toNat + t.out.length)
        (Except.map fun _ => ()) y (poll p capacity s) := by
  obtain ⟨h_alike, h_answer⟩ := @Copying.Alike.poll _ (counting p) capacity (s.map .ok) _
    CopyWithCapacityAtomic.counting t h.2
  have h_sound := (Copying.sound_poll (adds p counter) h.1).1
  refine ⟨_, rfl, ?_⟩
  cases h_poll : poll p capacity s with
  -- the one that counts with `+=` panics: its sum is 2 ^ 64 or more
  | error e =>
    rcases bind_eq_error.mp h_poll with h_amt | ⟨amt, -, h_return⟩
    · have h_out : (Copying.poll (counting p) capacity (s.map .ok)).1.out =
          (Copying.poll CopyWithCapacityAtomic.counting capacity t).1.out :=
        congrArg Copying.out h_alike
      rw [h_sound.counters_eq, grown_eq_error, h_out] at h_amt
      exact h_amt
    · cases h_return
  -- both have come to the same state, and answer the same but for the count
  | ok x =>
    obtain ⟨h_state, h_x⟩ := poll_eq_ok h_poll
    refine ⟨⟨(sound_poll counter s x h.1 h_poll).1, ?_⟩, ?_⟩
    · rw [h_state] at h_alike
      exact h_alike
    · rw [h_answer, h_x]
      match (Copying.poll (counting p) capacity (s.map .ok)).2 with
      | .pending => rfl
      | .ready (.error message) => rfl
      | .ready (.ok ()) => rfl

end CopyWithCapacity

/-- A poll keeps the account of the two atomic counters, whatever they began with, and an `Ok` comes
after the last byte. -/
theorem CopyWithCapacityAtomic.sound_poll (counterIn counterOut : BitVec 64)
    (s : CopyWithCapacityAtomic) (x : CopyWithCapacityAtomic × Poll (Except String Unit))
    (h : Copying.Sound total capacity (fun r w =>
      (counterIn + BitVec.ofNat 64 r, counterOut + BitVec.ofNat 64 w)) s)
    (h_poll : poll capacity s = .ok x) :
    Copying.Sound total capacity (fun r w =>
      (counterIn + BitVec.ofNat 64 r, counterOut + BitVec.ofNat 64 w)) x.1 ∧
      ∀ a, x.2 = .ready a → a = .ok () → x.1.Finished := by
  obtain ⟨h_sound, h_finished⟩ := Copying.sound_poll (adds counterIn counterOut) h
  cases h_poll
  exact ⟨h_sound, fun a h_a h_ok => h_finished (h_ok ▸ h_a)⟩

end Polls

/-! ### The claims of both -/

/-- What both copies are held to, of `read` bytes: they are accounted for, and `Ok` is returned only
after the end of the stream, when all of them are written. -/
structure Copying.Copies {C α : Type} (source : List UInt8) (capacity : ℕ)
    (x : Copying C × Poll (Except String α)) (read : List UInt8) : Prop where
  accounted : Accounted source capacity x.1 read
  ended : ∀ a, x.2 = .ready (.ok a) → x.1.readDone = true ∧ x.1.out = read

/-- **The copy loops.** Whatever the reader and the writer answer, and however often a copy has been
polled: what is written is the first part of what was read, the rest of that is in the buffer, and
no more than the buffer holds; the counters have grown by what was written, and read, modulo
`2 ^ 64`; and `Ok` is returned only after the end of the stream, when all that was read is written.
Both copies have written and read the same, and answer alike, unless `CopyWithCapacity` has
panicked. It does exactly if overflow is checked and the bytes that are written by then do not fit
into its counter. -/
theorem CopyWithCapacity.copies (p : Profile) (source : List UInt8) (answers : List IoAnswer)
    (capacity polls : ℕ) (counter counterIn counterOut : BitVec 64) :
    ∃ y, pollRun (CopyWithCapacityAtomic.poll capacity) polls
        (.new source answers counterIn counterOut) = .ok y ∧
      (∃ read, Copying.Copies source capacity y read ∧
        y.1.counters = (counterIn + BitVec.ofNat 64 read.length,
          counterOut + BitVec.ofNat 64 y.1.out.length)) ∧
      (∀ x, pollRun (CopyWithCapacity.poll p capacity) polls (.new source answers counter) = .ok x →
        (∃ read, Copying.Copies source capacity x read ∧
          x.1.counters = counter + BitVec.ofNat 64 x.1.out.length ∧
          ∀ n, x.2 = .ready (.ok n) → n = counter + BitVec.ofNat 64 read.length) ∧
        x.1.Alike y.1 ∧ y.2 = x.2.map (Except.map fun _ => ())) ∧
      ∀ e, pollRun (CopyWithCapacity.poll p capacity) polls (.new source answers counter) =
          .error e ↔
        e = .overflow ∧ p = .debug ∧ 2 ^ 64 ≤ counter.toNat + y.1.out.length := by
  have h_new {C : Type} {value : ℕ → ℕ → C} {c : C} (h : c = value 0 0) :
      Copying.Sound source capacity value ⟨source, answers, false, 0, [], c, []⟩ :=
    ⟨rfl, Nat.le_refl 0, Nat.zero_le _, h⟩
  have h_start : SoundFrom source capacity p counter (.new source answers counter) :=
    h_new (grown_zero p counter).symm
  -- both go in lockstep, until the first one panics
  obtain ⟨y, h_y, h_step⟩ := pollRun_lockstep (inStep_poll counter)
    (fun e t h_past => ⟨_, rfl, h_past.1, h_past.2.1, Nat.le_trans h_past.2.2
      (Nat.add_le_add_left (Copying.length_out_poll _ capacity t) _)⟩) polls
    (show _ ∧ (new source answers counter).Alike
      (CopyWithCapacityAtomic.new source answers counterIn counterOut) from ⟨h_start, rfl⟩)
  refine ⟨y, h_y, ?_, fun x h_x => ?_, fun e => ⟨fun h_e => ?_, fun h_past => ?_⟩⟩
  · -- the atomic copy keeps its account of what was read
    obtain ⟨h_sound, h_ok⟩ := pollRun_keeps
      (Q := fun (s : CopyWithCapacityAtomic) (a : Except String Unit) => a = .ok () → s.Finished)
      (CopyWithCapacityAtomic.sound_poll counterIn counterOut)
      (h_new (by rw [BitVec.add_zero, BitVec.add_zero])) h_y
    exact ⟨_, ⟨h_sound.accounted, fun a h_a => (h_ok _ h_a rfl).out_eq h_sound⟩,
      h_sound.counters_eq⟩
  · -- so does the other one
    rw [h_x] at h_step
    obtain ⟨⟨h_sound, h_alike⟩, h_answer⟩ := h_step
    have h_ok := (pollRun_keeps
      (Q := fun (s : CopyWithCapacity) (a : Except String (BitVec 64)) =>
        ∀ n, a = .ok n → s.Finished ∧ n = s.counters) (sound_poll counter) h_start h_x).2
    have h_counters := h_sound.counters.1
    have h_finished {n : BitVec 64} (h_n : x.2 = .ready (.ok n)) :
        x.1.readDone = true ∧ x.1.out = x.1.out ++ x.1.buf.drop x.1.pos := by
      obtain ⟨h_written, h_done⟩ := (h_ok _ h_n n rfl).1
      have h_end : (x.1.map .ok : Copying (Except Fault (BitVec 64))).Finished := ⟨h_written, h_done⟩
      exact h_end.out_eq h_sound
    refine ⟨⟨x.1.out ++ x.1.buf.drop x.1.pos, ⟨?_, fun n h_n => h_finished h_n⟩, h_counters,
      fun n h_n => ?_⟩, h_alike, h_answer⟩
    · obtain ⟨h_read, h_prefix, h_ahead, h_ahead_le, h_pos, h_buf⟩ := h_sound.accounted
      exact ⟨h_read, h_prefix, h_ahead, h_ahead_le, h_pos, h_buf⟩
    · rw [← (h_finished h_n).2, (h_ok _ h_n n rfl).2]
      exact h_counters
  · rw [h_e] at h_step
    exact h_step
  · cases h_x : pollRun (CopyWithCapacity.poll p capacity) polls (.new source answers counter) with
    | error e' =>
      rw [h_x] at h_step
      rw [h_step.1, h_past.1]
    | ok x =>
      -- a copy that has not panicked has a counter that fits
      rw [h_x] at h_step
      have h_lt := h_step.1.1.counters.2 h_past.2.1
      have h_out : x.1.out = y.1.out := congrArg (fun s => s.out) h_step.1.2
      rw [h_out] at h_lt
      exact absurd h_past.2.2 (Nat.not_le_of_lt h_lt)

/-- A counter at `u64::MAX`, and one byte to copy. In a release build it is 0 afterwards, and in a
debug build there is no afterwards. -/
theorem CopyWithCapacity.copies_wraps :
    (∃ x, pollRun (CopyWithCapacity.poll .release 1) 1
        (.new [7] [.go 1, .go 1] (BitVec.allOnes 64)) = .ok x ∧
      x.1.out = [7] ∧ x.1.counters = 0) ∧
    pollRun (CopyWithCapacity.poll .debug 1) 1 (.new [7] [.go 1, .go 1] (BitVec.allOnes 64)) =
      .error .overflow ∧
    ¬ ∀ (p : Profile) (source : List UInt8) (answers : List IoAnswer) (capacity polls : ℕ)
      (counter : BitVec 64), 1 ≤ capacity →
      ∃ x, pollRun (CopyWithCapacity.poll p capacity) polls (.new source answers counter) = .ok x ∧
        x.1.counters.toNat = counter.toNat + x.1.out.length := by
  refine ⟨⟨_, rfl, rfl, rfl⟩, rfl, fun h => ?_⟩
  obtain ⟨x, h_run, h_count⟩ := h .release [7] [.go 1, .go 1] 1 1 (BitVec.allOnes 64) (by decide)
  cases h_run
  exact absurd h_count (by decide)

end V2ray
