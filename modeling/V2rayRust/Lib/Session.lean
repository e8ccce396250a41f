import Mathlib.Data.List.Basic
import Mathlib.Tactic.Common
import V2rayRust.Lib.Trace

/-!
# Sessions

A task that reads a connection and acts on it, one `await` after the other: `Session` keeps what
the connection has left and what was done on it also when the task halts. The bytes come in
segments, and a read returns at most one of them, so how a task is told its bytes depends on how
they were cut. A task is `Uniform` if what comes of it does not: every task that reads with
`readExact` only is, by the lemmas here.
-/

namespace V2ray

/-- Why a task does not go on. -/
inductive Halt
  /-- it waits for bytes that do not come -/
  | waits
  | stop (e : Stop)
  deriving DecidableEq

/-- A connection: the bytes it will bring, cut into segments, whether its end comes after them,
and what was done on it. -/
structure Conn (ε : Type) where
  segments : List (List UInt8)
  ended : Bool
  done : List ε
  deriving DecidableEq

abbrev Session (ε : Type) := ExceptT Halt (StateM (Conn ε))

variable {ε α β : Type}

namespace Conn

def bytes (c : Conn ε) : List UInt8 := c.segments.flatten

/-- The same connection, cut in another way. -/
structure Same (c c' : Conn ε) : Prop where
  bytes_eq : c.bytes = c'.bytes
  ended_eq : c.ended = c'.ended
  done_eq : c.done = c'.done

theorem Same.refl (c : Conn ε) : c.Same c := ⟨rfl, rfl, rfl⟩

theorem Same.symm {c c' : Conn ε} (h : c.Same c') : c'.Same c :=
  ⟨h.bytes_eq.symm, h.ended_eq.symm, h.done_eq.symm⟩

theorem Same.trans {c c' c'' : Conn ε} (h : c.Same c') (h' : c'.Same c'') : c.Same c'' :=
  ⟨h.bytes_eq.trans h'.bytes_eq, h.ended_eq.trans h'.ended_eq, h.done_eq.trans h'.done_eq⟩

end Conn

/-- A way to cut bytes into segments. A read of no bytes would be an end. -/
structure Segmentation (bytes : List UInt8) where
  segments : List (List UInt8)
  flatten_eq : segments.flatten = bytes
  ne_nil : ∀ segment ∈ segments, segment ≠ []

/-- The connection of a client that sends `bytes`, cut like this. -/
def Segmentation.conn {bytes : List UInt8} (cut : Segmentation bytes) (ended : Bool) : Conn ε :=
  ⟨cut.segments, ended, []⟩

theorem Segmentation.same {bytes : List UInt8} (cut cut' : Segmentation bytes) (ended : Bool) :
    (cut.conn ended : Conn ε).Same (cut'.conn ended) :=
  ⟨cut.flatten_eq.trans cut'.flatten_eq.symm, rfl, rfl⟩

/-! ### Reading and acting -/

/-- The segments after their first `n` bytes. -/
def dropBytes : ℕ → List (List UInt8) → List (List UInt8)
  | _, [] => []
  | n, segment :: segments =>
    if n < segment.length then segment.drop n :: segments
    else dropBytes (n - segment.length) segments

/-- The segments after some bytes say what comes after these bytes. -/
theorem flatten_dropBytes (n : ℕ) (segments : List (List UInt8)) :
    (dropBytes n segments).flatten = segments.flatten.drop n := by
  induction segments generalizing n with
  | nil => rw [dropBytes, List.flatten_nil, List.drop_nil]
  | cons segment segments ih =>
    rw [dropBytes, List.flatten_cons, List.drop_append]
    split
    · next h_lt =>
      rw [List.flatten_cons, Nat.sub_eq_zero_of_le (Nat.le_of_lt h_lt), List.drop_zero]
    · next h_ge => rw [ih, List.drop_eq_nil_of_le (Nat.le_of_not_lt h_ge), List.nil_append]

/-- What is left has been cut where it was before, and nowhere else. -/
theorem ne_nil_of_dropBytes {n : ℕ} {segments : List (List UInt8)}
    (h : ∀ segment ∈ segments, segment ≠ []) : ∀ segment ∈ dropBytes n segments, segment ≠ [] := by
  induction segments generalizing n with
  | nil => exact h
  | cons segment segments ih =>
    have h_rest := fun s h_s => h s (List.mem_cons_of_mem _ h_s)
    rw [dropBytes]
    split
    · next h_lt =>
      intro s h_s
      rcases List.mem_cons.mp h_s with rfl | h_s
      · exact List.ne_nil_of_length_pos (by rw [List.length_drop]; exact Nat.sub_pos_of_lt h_lt)
      · exact h_rest s h_s
    · exact ih h_rest

/-- No segment goes on after the first `n` bytes. -/
def EndsAt : ℕ → List (List UInt8) → Prop
  | 0, _ => True
  | _, [] => True
  | n + 1, segment :: segments =>
    segment.length ≤ n + 1 ∧ EndsAt (n + 1 - segment.length) segments

theorem endsAt_cons {n : ℕ} (h : 0 < n) (segment : List UInt8) (segments : List (List UInt8)) :
    EndsAt n (segment :: segments) ↔
      segment.length ≤ n ∧ EndsAt (n - segment.length) segments := by
  obtain ⟨m, rfl⟩ := Nat.exists_eq_succ_of_ne_zero (Nat.ne_of_gt h)
  rfl

theorem endsAt_zero (segments : List (List UInt8)) : EndsAt 0 segments := by
  cases segments <;> trivial

theorem endsAt_nil (n : ℕ) : EndsAt n [] := by
  cases n <;> trivial

/-- What ends after `n + m` bytes ends after the `m` that come after the first `n`. -/
theorem endsAt_dropBytes (n : ℕ) {m : ℕ} (h : 0 < m) (segments : List (List UInt8)) :
    EndsAt m (dropBytes n segments) ↔ EndsAt (n + m) segments := by
  induction segments generalizing n with
  | nil => exact iff_of_true (endsAt_nil _) (endsAt_nil _)
  | cons segment segments ih =>
    rw [dropBytes, endsAt_cons (Nat.add_pos_right n h)]
    split
    · next h_lt =>
      rw [endsAt_cons h, List.length_drop]
      refine and_congr (by omega) ?_
      rw [show m - (segment.length - n) = n + m - segment.length by omega]
    · next h_ge =>
      rw [ih, show n - segment.length + m = n + m - segment.length by omega]
      exact (and_iff_right (by omega)).symm

namespace Session

/-- `read_exact` into a buffer of `n` bytes. -/
def readExact (n : ℕ) : Session ε (List UInt8) := fun c =>
  if n ≤ c.bytes.length then (.ok (c.bytes.take n), { c with segments := dropBytes n c.segments })
  else if c.ended then (.error (.stop (.err "early eof")), { c with segments := [] })
  else (.error .waits, { c with segments := [] })

/-- `read_u8` and the like: the next byte. -/
def readByte : Session ε UInt8 := do return (← readExact 1).headD 0

/-- A read into a buffer with `room` free bytes: at most one segment, and nothing at the end. -/
def readBuf (room : ℕ) : Session ε (List UInt8) := fun c =>
  match c.segments with
  | segment :: segments =>
    if room < segment.length then
      (.ok (segment.take room), { c with segments := segment.drop room :: segments })
    else (.ok segment, { c with segments := segments })
  | [] => if c.ended then (.ok [], c) else (.error .waits, c)

/-- Do `e`; the world answers, knowing all that was done. -/
def act (answer : List ε → Except String α) (e : ε) : Session ε α := fun c =>
  let c := { c with done := c.done ++ [e] }
  match answer c.done with
  | .ok a => (.ok a, c)
  | .error message => (.error (.stop (.err message)), c)

/-- A computation on its own. -/
def lift (x : Except Stop α) : Session ε α := fun c => (x.mapError Halt.stop, c)

end Session

/-! ### Uniform tasks -/

/-- Two runs with the same result, which leave the same connection. -/
structure Agree (r r' : Except Halt α × Conn ε) : Prop where
  result_eq : r.1 = r'.1
  same : r.2.Same r'.2

theorem Agree.symm {r r' : Except Halt α × Conn ε} (h : Agree r r') : Agree r' r :=
  ⟨h.result_eq.symm, h.same.symm⟩

theorem Agree.trans {r r' r'' : Except Halt α × Conn ε} (h : Agree r r') (h' : Agree r' r'') :
    Agree r r'' :=
  ⟨h.result_eq.trans h'.result_eq, h.same.trans h'.same⟩

/-- What comes of the task does not depend on how the bytes are cut. -/
def Uniform (x : Session ε α) : Prop := ∀ c c' : Conn ε, c.Same c' → Agree (x c) (x c')

/-- What is left of a run after it has returned `a`. -/
theorem bind_run_eq (x : Session ε α) (f : α → Session ε β) (c : Conn ε) :
    (x >>= f) c = match x c with
      | (.ok a, c') => f a c'
      | (.error e, c') => (.error e, c') := by
  cases h : x c with
  | mk r c' =>
    simp only [bind, ExceptT.bind, ExceptT.mk, StateT.bind, h]
    cases r <;> rfl

/-- A task has returned exactly if both of its parts have. -/
theorem bind_run_eq_ok {x : Session ε α} {f : α → Session ε β} {c c'' : Conn ε} {b : β} :
    (x >>= f) c = (.ok b, c'') ↔ ∃ a c', x c = (.ok a, c') ∧ f a c' = (.ok b, c'') := by
  rw [bind_run_eq]
  generalize x c = r
  obtain ⟨r, c'⟩ := r
  cases r with
  | ok a =>
    refine ⟨fun h => ⟨a, c', rfl, h⟩, ?_⟩
    rintro ⟨_, _, ⟨⟩, h⟩
    exact h
  | error e =>
    refine ⟨fun h => (by cases h), ?_⟩
    rintro ⟨_, _, ⟨⟩, _⟩

/-- `read_exact` succeeds exactly if there are enough bytes, and takes the first of them. -/
theorem readExact_eq_ok {n : ℕ} {c c' : Conn ε} {bytes : List UInt8} :
    Session.readExact n c = (.ok bytes, c') ↔ n ≤ c.bytes.length ∧ bytes = c.bytes.take n ∧
      c' = { c with segments := dropBytes n c.segments } := by
  unfold Session.readExact
  by_cases h_len : n ≤ c.bytes.length
  · rw [if_pos h_len]
    constructor
    · intro h
      cases h
      exact ⟨h_len, rfl, rfl⟩
    · rintro ⟨_, rfl, rfl⟩
      rfl
  · rw [if_neg h_len]
    refine iff_of_false ?_ fun h => h_len h.1
    split <;> exact fun h => (by cases h)

/-- A read of the bytes at the front. -/
theorem readExact_append {c : Conn ε} {n : ℕ} {front rest : List UInt8}
    (h_bytes : c.bytes = front ++ rest) (h_len : front.length = n) :
    ∃ c', Session.readExact n c = (.ok front, c') ∧ c'.bytes = rest ∧ c'.ended = c.ended ∧
      c'.done = c.done := by
  refine ⟨{ c with segments := dropBytes n c.segments }, readExact_eq_ok.mpr ⟨?_, ?_, rfl⟩,
    ?_, rfl, rfl⟩
  · rw [h_bytes, List.length_append]
    omega
  · rw [h_bytes, List.take_left' h_len]
  · refine (flatten_dropBytes n c.segments).trans ?_
    rw [← h_len]
    exact (congrArg (List.drop front.length) h_bytes).trans List.drop_left

/-- What a call of `read_exact` finds: the bytes, or not so many. -/
inductive ReadExactly (n : ℕ) (c : Conn ε) : Except Halt (List UInt8) × Conn ε → Prop
  | ok {d : Conn ε} (le : n ≤ c.bytes.length) (bytes_eq : d.bytes = c.bytes.drop n)
      (ended_eq : d.ended = c.ended) : ReadExactly n c (.ok (c.bytes.take n), d)
  | eof {d : Conn ε} (lt : c.bytes.length < n) :
      ReadExactly n c (.error (.stop (.err "early eof")), d)
  | waits {d : Conn ε} (lt : c.bytes.length < n) (ended_eq : c.ended = false) :
      ReadExactly n c (.error .waits, d)

/-- `read_exact` finds what it asks for, or it reports the end or waits. -/
theorem readExactly (n : ℕ) (c : Conn ε) : ReadExactly n c (Session.readExact n c) := by
  unfold Session.readExact
  split
  · next h_le => exact .ok h_le (flatten_dropBytes n c.segments) rfl
  · next h_lt =>
    split
    · exact .eof (Nat.lt_of_not_le h_lt)
    · next h_ended => exact .waits (Nat.lt_of_not_le h_lt) (Bool.eq_false_iff.mpr h_ended)

/-- What a call of `read_u8` finds. -/
inductive ReadsByte (c : Conn ε) : Except Halt UInt8 × Conn ε → Prop
  | ok {b : UInt8} {d : Conn ε} (bytes_eq : c.bytes = b :: d.bytes) (ended_eq : d.ended = c.ended) :
      ReadsByte c (.ok b, d)
  | eof {d : Conn ε} (bytes_eq : c.bytes = []) : ReadsByte c (.error (.stop (.err "early eof")), d)
  | waits {d : Conn ε} (bytes_eq : c.bytes = []) (ended_eq : c.ended = false) :
      ReadsByte c (.error .waits, d)

/-- Reading a byte takes the first one, or meets the end. -/
theorem readsByte (c : Conn ε) : ReadsByte c (Session.readByte c) := by
  unfold Session.readByte
  rw [bind_run_eq]
  have h_read := readExactly 1 c
  generalize Session.readExact 1 c = r at h_read ⊢
  cases h_read with
  | @ok d le bytes_eq ended_eq =>
    match h_bytes : c.bytes, le with
    | b :: bs, _ =>
      rw [h_bytes] at bytes_eq
      refine .ok ?_ ended_eq
      rw [bytes_eq, h_bytes]
      rfl
  | eof lt => exact .eof (List.eq_nil_of_length_eq_zero (Nat.lt_one_iff.mp lt))
  | waits lt ended_eq =>
    exact .waits (List.eq_nil_of_length_eq_zero (Nat.lt_one_iff.mp lt)) ended_eq

/-- Runs that agree go on alike. -/
theorem Agree.bind {x y : Session ε α} {f : α → Session ε β} {c c' : Conn ε}
    (h : Agree (x c) (y c')) (h_f : ∀ a, Uniform (f a)) : Agree ((x >>= f) c) ((y >>= f) c') := by
  rw [bind_run_eq, bind_run_eq]
  obtain ⟨h_result, h_same⟩ := h
  generalize x c = r at h_result h_same ⊢
  generalize y c' = r' at h_result h_same ⊢
  obtain ⟨r, d⟩ := r
  obtain ⟨r', d'⟩ := r'
  obtain rfl : r = r' := h_result
  cases r with
  | ok a => exact h_f a _ _ h_same
  | error e => exact ⟨rfl, h_same⟩

theorem uniform_bind {x : Session ε α} {f : α → Session ε β} (h : Uniform x)
    (h_f : ∀ a, Uniform (f a)) : Uniform (x >>= f) :=
  fun c c' h_same => (h c c' h_same).bind h_f

theorem uniform_pure (a : α) : Uniform (pure a : Session ε α) := fun _ _ h => ⟨rfl, h⟩

theorem uniform_throw (e : Halt) : Uniform (throw e : Session ε α) := fun _ _ h => ⟨rfl, h⟩

theorem uniform_lift (x : Except Stop α) : Uniform (Session.lift x : Session ε α) :=
  fun _ _ h => ⟨rfl, h⟩

theorem uniform_act (answer : List ε → Except String α) (e : ε) :
    Uniform (Session.act answer e) := by
  intro c c' h
  unfold Session.act
  dsimp only
  rw [h.done_eq]
  split <;> exact ⟨rfl, h.bytes_eq, h.ended_eq, rfl⟩

/-- A read of so many bytes, whatever comes of it if the stream ends before. -/
theorem uniform_take (n : ℕ) (atEnd : Halt) : Uniform (fun c : Conn ε =>
    if n ≤ c.bytes.length then
      (.ok (c.bytes.take n), { c with segments := dropBytes n c.segments })
    else if c.ended then (.error atEnd, { c with segments := [] })
    else (.error .waits, { c with segments := [] }) : Session ε (List UInt8)) := by
  intro c c' h
  dsimp only
  rw [h.bytes_eq, h.ended_eq]
  have h_drop : (dropBytes n c.segments).flatten = (dropBytes n c'.segments).flatten := by
    rw [flatten_dropBytes, flatten_dropBytes]
    exact congrArg (List.drop n) h.bytes_eq
  split
  · exact ⟨rfl, h_drop, rfl, h.done_eq⟩
  · split <;> exact ⟨rfl, rfl, rfl, h.done_eq⟩

theorem uniform_readExact (n : ℕ) : Uniform (Session.readExact n : Session ε (List UInt8)) :=
  uniform_take n _

theorem uniform_readByte : Uniform (Session.readByte : Session ε UInt8) :=
  uniform_bind (uniform_readExact 1) fun _ => uniform_pure _

/-! ### Streams that have ended -/

/-- The task does not change whether the stream has ended. -/
def KeepsEnd (x : Session ε α) : Prop := ∀ c : Conn ε, (x c).2.ended = c.ended

/-- Over a stream that has ended the task returns: it does not wait, and nothing stops it but an
error that it reports. -/
def Closes (x : Session ε α) : Prop :=
  ∀ c : Conn ε, c.ended = true → ∀ e, (x c).1 = .error e → ∃ message, e = .stop (.err message)

/-- Of two tasks that keep the end, one after the other keeps it. -/
theorem keepsEnd_bind {x : Session ε α} {f : α → Session ε β} (h : KeepsEnd x)
    (h_f : ∀ a, KeepsEnd (f a)) : KeepsEnd (x >>= f) := by
  intro c
  rw [bind_run_eq]
  have h_c := h c
  generalize x c = r at h_c ⊢
  obtain ⟨r, c'⟩ := r
  cases r with
  | ok a => exact (h_f a c').trans h_c
  | error e => exact h_c

theorem keepsEnd_pure (a : α) : KeepsEnd (pure a : Session ε α) := fun _ => rfl

theorem keepsEnd_throw (e : Halt) : KeepsEnd (throw e : Session ε α) := fun _ => rfl

theorem keepsEnd_lift (x : Except Stop α) : KeepsEnd (Session.lift x : Session ε α) := fun _ => rfl

theorem keepsEnd_act (answer : List ε → Except String α) (e : ε) :
    KeepsEnd (Session.act answer e) := by
  intro c
  unfold Session.act
  dsimp only
  split <;> rfl

theorem keepsEnd_readExact (n : ℕ) : KeepsEnd (Session.readExact n : Session ε (List UInt8)) := by
  intro c
  unfold Session.readExact
  split
  · rfl
  · split <;> rfl

theorem keepsEnd_readByte : KeepsEnd (Session.readByte : Session ε UInt8) :=
  keepsEnd_bind (keepsEnd_readExact 1) fun _ => keepsEnd_pure _

/-- A task that returns, and then another one. -/
theorem closes_bind {x : Session ε α} {f : α → Session ε β} (h : Closes x) (h_end : KeepsEnd x)
    (h_f : ∀ a, Closes (f a)) : Closes (x >>= f) := by
  intro c h_c e h_e
  rw [bind_run_eq] at h_e
  have h_x := h c h_c
  have h_kept := h_end c
  generalize x c = r at h_x h_kept h_e
  obtain ⟨r, c'⟩ := r
  cases r with
  | ok a => exact h_f a c' (h_kept.trans h_c) e h_e
  | error e' =>
    cases h_e
    exact h_x e rfl

theorem closes_pure (a : α) : Closes (pure a : Session ε α) := fun _ _ _ h => by cases h

theorem closes_err (message : String) : Closes (throw (.stop (.err message)) : Session ε α) :=
  fun _ _ _ h => ⟨message, by cases h; rfl⟩

/-- A task that does one thing returns, or reports an error. -/
theorem closes_act (answer : List ε → Except String α) (e : ε) : Closes (Session.act answer e) := by
  intro c _ e' h
  unfold Session.act at h
  dsimp only at h
  split at h
  · cases h
  · next message _ =>
    cases h
    exact ⟨message, rfl⟩

/-- Over a stream that has ended `read_exact` does not wait: it reports what is missing. -/
theorem closes_readExact (n : ℕ) : Closes (Session.readExact n : Session ε (List UInt8)) := by
  intro c h_c e h
  have h_read := readExactly n c
  generalize Session.readExact n c = r at h_read h
  cases h_read with
  | ok => cases h
  | eof => cases h; exact ⟨_, rfl⟩
  | waits _ ended_eq => rw [ended_eq] at h_c; cases h_c

theorem closes_readByte : Closes (Session.readByte : Session ε UInt8) :=
  closes_bind (closes_readExact 1) (keepsEnd_readExact 1) fun _ => closes_pure _

/-! ### What was done -/

/-- What was done before the task stays done. -/
def KeepsDone (x : Session ε α) : Prop := ∀ c : Conn ε, c.done <+: (x c).2.done

/-- Of two tasks that keep what was done, one after the other keeps it. -/
theorem keepsDone_bind {x : Session ε α} {f : α → Session ε β} (h : KeepsDone x)
    (h_f : ∀ a, KeepsDone (f a)) : KeepsDone (x >>= f) := by
  intro c
  rw [bind_run_eq]
  have h_c := h c
  generalize x c = r at h_c ⊢
  obtain ⟨r, c'⟩ := r
  cases r with
  | ok a => exact h_c.trans (h_f a c')
  | error e => exact h_c

theorem keepsDone_pure (a : α) : KeepsDone (pure a : Session ε α) := fun _ => List.prefix_rfl

theorem keepsDone_throw (e : Halt) : KeepsDone (throw e : Session ε α) := fun _ => List.prefix_rfl

theorem keepsDone_lift (x : Except Stop α) : KeepsDone (Session.lift x : Session ε α) :=
  fun _ => List.prefix_rfl

/-- The action itself is done, however the world answers. -/
theorem done_act (answer : List ε → Except String α) (e : ε) (c : Conn ε) :
    (Session.act answer e c).2.done = c.done ++ [e] := by
  unfold Session.act
  dsimp only
  split <;> rfl

theorem keepsDone_act (answer : List ε → Except String α) (e : ε) :
    KeepsDone (Session.act answer e) := by
  intro c
  rw [done_act]
  exact List.prefix_append _ _

theorem keepsDone_readExact (n : ℕ) :
    KeepsDone (Session.readExact n : Session ε (List UInt8)) := by
  intro c
  unfold Session.readExact
  split
  · exact List.prefix_rfl
  · split <;> exact List.prefix_rfl

theorem keepsDone_readByte : KeepsDone (Session.readByte : Session ε UInt8) :=
  keepsDone_bind (keepsDone_readExact 1) fun _ => keepsDone_pure _

end V2ray
