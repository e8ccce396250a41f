import Mathlib.Data.List.Basic

/-!
# Polling

`std::task::Poll`, and the schedule of an operation that is polled until it is ready: what the
stream below answers to each poll of a reader or a writer. A byte stream that is cut into
reads is a schedule, so a statement about every schedule is one about every segmentation;
a read that has less room than a segment only cuts it further. After its last event a
schedule is pending.
-/

namespace V2ray

/-- The answer to a poll. -/
inductive Poll (α : Type)
  | pending
  | ready (value : α)
  deriving DecidableEq, Repr

/-! ### Reading -/

/-- What one read of the stream below answers. A read of no bytes is the end of the stream. -/
inductive ReadEvent
  | pending
  | data (bytes : List UInt8)
  | err (message : String)
  deriving DecidableEq, Repr

def ReadEvent.bytes : ReadEvent → List UInt8
  | data bs => bs
  | _ => []

/-- The bytes that a schedule brings. -/
def bytesOf (es : List ReadEvent) : List UInt8 := es.flatMap ReadEvent.bytes

/-- The polls that a schedule answers with pending. -/
def pendings (es : List ReadEvent) : ℕ := es.countP (· = .pending)

@[simp] theorem bytesOf_nil : bytesOf [] = [] := rfl

@[simp] theorem bytesOf_cons (e : ReadEvent) (es : List ReadEvent) :
    bytesOf (e :: es) = e.bytes ++ bytesOf es := rfl

theorem bytesOf_append (es es' : List ReadEvent) :
    bytesOf (es ++ es') = bytesOf es ++ bytesOf es' :=
  List.flatMap_append

/-- A stream that works: no read fails, and it ends only after its last byte. -/
inductive Clean : List ReadEvent → Prop
  | nil : Clean []
  | pending {es : List ReadEvent} (rest : Clean es) : Clean (.pending :: es)
  | data {bs : List UInt8} {es : List ReadEvent} (ne_nil : bs ≠ []) (rest : Clean es) :
      Clean (.data bs :: es)
  | ended {es : List ReadEvent} (rest : Clean es) (no_bytes : bytesOf es = []) :
      Clean (.data [] :: es)

/-- Bytes that come one at a time. -/
def oneByOne (bs : List UInt8) : List ReadEvent := bs.map fun b => .data [b]

@[simp] theorem bytesOf_oneByOne (bs : List UInt8) : bytesOf (oneByOne bs) = bs := by
  induction bs with
  | nil => rfl
  | cons b bs ih => exact congrArg (b :: ·) ih

@[simp] theorem pendings_oneByOne (bs : List UInt8) : pendings (oneByOne bs) = 0 := by
  induction bs with
  | nil => rfl
  | cons b bs ih => exact ih

theorem clean_oneByOne (bs : List UInt8) : Clean (oneByOne bs) := by
  induction bs with
  | nil => exact .nil
  | cons b bs ih => exact .data (List.cons_ne_nil _ _) ih

/-- The end of a call of `read_at_least`. -/
inductive Filled
  | full
  | pending
  /-- `read_zero`, and `UnexpectedEof` -/
  | ended
  | err (message : String)
  deriving DecidableEq, Repr

/-- `read_at_least` of `impl_read_utils!`: read until the buffer holds `length` bytes. It
returns the buffer and what is left of the schedule. -/
def readAtLeast (length : ℕ) : List UInt8 → List ReadEvent → Filled × List UInt8 × List ReadEvent
  | buffer, [] => if length ≤ buffer.length then (.full, buffer, []) else (.pending, buffer, [])
  | buffer, e :: es =>
    if length ≤ buffer.length then (.full, buffer, e :: es)
    else match e with
      | .pending => (.pending, buffer, es)
      | .err message => (.err message, buffer, es)
      | .data bs =>
        if bs = [] then (.ended, buffer, es) else readAtLeast length (buffer ++ bs) es

section ReadAtLeast

variable {length : ℕ} {buffer buffer' : List UInt8} {es es' : List ReadEvent} {f : Filled}

/-- A buffer that is long enough is left alone. -/
theorem readAtLeast_of_le (h : length ≤ buffer.length) (es : List ReadEvent) :
    readAtLeast length buffer es = (.full, buffer, es) := by
  cases es <;> rw [readAtLeast.eq_def] <;> exact if_pos h

/-- One round of the loop. -/
theorem readAtLeast_of_lt (h : buffer.length < length) (e : ReadEvent) (es : List ReadEvent) :
    readAtLeast length buffer (e :: es) = match e with
      | .pending => (.pending, buffer, es)
      | .err message => (.err message, buffer, es)
      | .data bs =>
        if bs = [] then (.ended, buffer, es) else readAtLeast length (buffer ++ bs) es := by
  rw [readAtLeast.eq_def]
  exact if_neg (Nat.not_le_of_lt h)

/-- How a call ends, and what it leaves. -/
theorem readAtLeast_cases (h : readAtLeast length buffer es = (f, buffer', es')) :
    buffer' ++ bytesOf es' = buffer ++ bytesOf es ∧ es' <:+ es ∧
      (f = .full → length ≤ buffer'.length) := by
  -- on the events; the buffer grows with each read
  induction es generalizing buffer with
  | nil =>
    rw [readAtLeast] at h
    split at h
    · next h_le => cases h; exact ⟨rfl, List.suffix_rfl, fun _ => h_le⟩
    · cases h; exact ⟨rfl, List.suffix_rfl, fun hf => (by cases hf)⟩
  | cons e es ih =>
    rcases Nat.lt_or_ge buffer.length length with h_lt | h_le
    · rw [readAtLeast_of_lt h_lt] at h
      cases e with
      | pending => cases h; exact ⟨rfl, List.suffix_cons _ _, fun hf => (by cases hf)⟩
      | err message => cases h; exact ⟨rfl, List.suffix_cons _ _, fun hf => (by cases hf)⟩
      | data bs =>
        by_cases h_bs : bs = []
        · subst h_bs
          cases h
          exact ⟨rfl, List.suffix_cons _ _, fun hf => (by cases hf)⟩
        · obtain ⟨h_bytes, h_suffix, h_full⟩ := ih (h.symm.trans (if_neg h_bs) |>.symm)
          -- the bytes of this read go from the schedule into the buffer
          refine ⟨?_, h_suffix.trans (List.suffix_cons _ _), h_full⟩
          rw [h_bytes, bytesOf_cons, List.append_assoc]
          rfl
    · rw [readAtLeast_of_le h_le] at h
      cases h
      exact ⟨rfl, List.suffix_rfl, fun _ => h_le⟩

/-- A call only appends to the buffer. -/
theorem prefix_of_readAtLeast (h : readAtLeast length buffer es = (f, buffer', es')) :
    buffer <+: buffer' := by
  obtain ⟨h_bytes, ⟨es₁, rfl⟩, -⟩ := readAtLeast_cases h
  rw [bytesOf_append, ← List.append_assoc] at h_bytes
  exact ⟨bytesOf es₁, (List.append_cancel_right h_bytes).symm⟩

/-- A call reports the end of the stream if the stream does. -/
theorem ended_mem (h : readAtLeast length buffer es = (.ended, buffer', es')) : .data [] ∈ es := by
  -- on the schedule; only a read of no bytes ends the call so
  induction es generalizing buffer with
  | nil =>
    rw [readAtLeast] at h
    split at h
    · cases h
    · cases h
  | cons e es ih =>
    rcases Nat.lt_or_ge buffer.length length with h_lt | h_le
    · rw [readAtLeast_of_lt h_lt] at h
      cases e with
      | pending => cases h
      | err message => cases h
      | data bs =>
        dsimp only at h
        split at h
        · next h_nil =>
          rw [h_nil]
          exact List.mem_cons_self
        · exact List.mem_cons_of_mem _ (ih h)
    · rw [readAtLeast_of_le h_le] at h
      cases h

/-- A call that is pending has spent an event, if there was one. -/
theorem readAtLeast_pending (h : readAtLeast length buffer es = (.pending, buffer', es')) :
    es'.length < es.length ∨ es = [] := by
  cases es with
  | nil => exact Or.inr rfl
  | cons e es =>
    left
    -- with enough in the buffer it does not wait
    rcases Nat.lt_or_ge buffer.length length with h_lt | h_le
    · have h_rest : es'.length ≤ es.length := by
        rw [readAtLeast_of_lt h_lt] at h
        cases e with
        | pending => cases h; exact Nat.le_refl _
        | err message => cases h
        | data bs =>
          dsimp only at h
          split at h
          · cases h
          · exact (readAtLeast_cases h).2.1.length_le
      exact Nat.lt_succ_of_le h_rest
    · rw [readAtLeast_of_le h_le] at h
      cases h

/-- **Reading from a stream that works**: the call fills the buffer, or spends a pending poll,
or meets the end of the bytes with a buffer that is too short. -/
inductive ReadClean (length : ℕ) (es : List ReadEvent) :
    Filled → List UInt8 → List ReadEvent → Prop
  | full {buffer' : List UInt8} {es' : List ReadEvent} (clean : Clean es')
      (le : length ≤ buffer'.length) (pendings_le : pendings es' ≤ pendings es) :
      ReadClean length es .full buffer' es'
  | pending {buffer' : List UInt8} {es' : List ReadEvent} (clean : Clean es')
      (lt : buffer'.length < length) (spent : pendings es' < pendings es) :
      ReadClean length es .pending buffer' es'
  | waiting {buffer' : List UInt8} (lt : buffer'.length < length) :
      ReadClean length es .pending buffer' []
  | ended {buffer' : List UInt8} {es' : List ReadEvent} (clean : Clean es')
      (lt : buffer'.length < length) (no_bytes : bytesOf es' = []) :
      ReadClean length es .ended buffer' es'

/-- Bytes that have been read spend no pending poll. -/
theorem ReadClean.data {bs : List UInt8} (h : ReadClean length es f buffer' es') :
    ReadClean length (.data bs :: es) f buffer' es' := by
  have h_same : pendings (.data bs :: es) = pendings es := by simp [pendings]
  cases h with
  | full clean le pendings_le => exact .full clean le (h_same ▸ pendings_le)
  | pending clean lt spent => exact .pending clean lt (h_same ▸ spent)
  | waiting lt => exact .waiting lt
  | ended clean lt no_bytes => exact .ended clean lt no_bytes

/-- How a call ends on a clean schedule. -/
theorem readClean (h : Clean es) (h_read : readAtLeast length buffer es = (f, buffer', es')) :
    ReadClean length es f buffer' es' := by
  -- on the schedule, one case for each event of a stream that works
  induction h generalizing buffer with
  | nil =>
    rw [readAtLeast] at h_read
    split at h_read
    · next h_le => cases h_read; exact .full .nil h_le (Nat.le_refl _)
    · next h_lt => cases h_read; exact .waiting (Nat.lt_of_not_le h_lt)
  | @pending es rest _ =>
    rcases Nat.lt_or_ge buffer.length length with h_lt | h_le
    · rw [readAtLeast_of_lt h_lt] at h_read
      cases h_read
      exact .pending rest h_lt (by simp [pendings])
    · rw [readAtLeast_of_le h_le] at h_read
      cases h_read
      exact .full rest.pending h_le (Nat.le_refl _)
  | @data bs es ne_nil rest ih =>
    rcases Nat.lt_or_ge buffer.length length with h_lt | h_le
    · rw [readAtLeast_of_lt h_lt] at h_read
      exact (ih (h_read.symm.trans (if_neg ne_nil) |>.symm)).data
    · rw [readAtLeast_of_le h_le] at h_read
      cases h_read
      exact .full (rest.data ne_nil) h_le (Nat.le_refl _)
  | @ended es rest no_bytes _ =>
    rcases Nat.lt_or_ge buffer.length length with h_lt | h_le
    · rw [readAtLeast_of_lt h_lt] at h_read
      cases h_read
      exact .ended rest h_lt no_bytes
    · rw [readAtLeast_of_le h_le] at h_read
      cases h_read
      exact .full (rest.ended no_bytes) h_le (Nat.le_refl _)

/-! #### The end of a stream -/

/-- The bytes that come before the stream ends or fails. -/
def bytesToEnd : List ReadEvent → List UInt8
  | [] => []
  | .pending :: es => bytesToEnd es
  | .err _ :: _ => []
  | .data bs :: es => if bs = [] then [] else bs ++ bytesToEnd es

/-- The stream ends, and no read has failed before. -/
def ends : List ReadEvent → Bool
  | [] => false
  | .pending :: es => ends es
  | .err _ :: _ => false
  | .data bs :: es => if bs = [] then true else ends es

/-- **Reading from any stream**: what the end of a call tells about the end of the stream. -/
inductive ReadToEnd (length : ℕ) (buffer : List UInt8) (es : List ReadEvent) :
    Filled → List UInt8 → List ReadEvent → Prop
  | full {buffer' : List UInt8} {es' : List ReadEvent} (le : length ≤ buffer'.length)
      (bytes_eq : buffer' ++ bytesToEnd es' = buffer ++ bytesToEnd es)
      (ends_eq : ends es' = ends es) : ReadToEnd length buffer es .full buffer' es'
  | pending {buffer' : List UInt8} {es' : List ReadEvent}
      (bytes_eq : buffer' ++ bytesToEnd es' = buffer ++ bytesToEnd es)
      (ends_eq : ends es' = ends es) : ReadToEnd length buffer es .pending buffer' es'
  | ended {buffer' : List UInt8} {es' : List ReadEvent} (ends_eq : ends es = true)
      (lt : (buffer ++ bytesToEnd es).length < length) :
      ReadToEnd length buffer es .ended buffer' es'
  | err {message : String} {buffer' : List UInt8} {es' : List ReadEvent}
      (ends_eq : ends es = false) : ReadToEnd length buffer es (.err message) buffer' es'

/-- A call on any schedule: how it ends tells how the schedule goes on. -/
theorem readToEnd (h : readAtLeast length buffer es = (f, buffer', es')) :
    ReadToEnd length buffer es f buffer' es' := by
  induction es generalizing buffer with
  -- no answers
  | nil =>
    rw [readAtLeast] at h
    split at h
    · next h_le => cases h; exact .full h_le rfl rfl
    · cases h; exact .pending rfl rfl
  | cons e es ih =>
    -- the call reads only while it has too few bytes
    rcases Nat.lt_or_ge buffer.length length with h_lt | h_le
    · rw [readAtLeast_of_lt h_lt] at h
      cases e with
      | pending => cases h; exact .pending rfl rfl
      | err message => cases h; exact .err rfl
      | data bs =>
        by_cases h_bs : bs = []
        · -- a read of nothing is the end of the stream
          subst h_bs
          cases h
          exact .ended rfl (by rw [bytesToEnd, if_pos rfl, List.append_nil]; exact h_lt)
        · -- the bytes go from the stream into the buffer
          have h_bytes : buffer ++ bs ++ bytesToEnd es = buffer ++ bytesToEnd (.data bs :: es) := by
            rw [bytesToEnd, if_neg h_bs, List.append_assoc]
          have h_ends : ends es = ends (.data bs :: es) := by
            rw [ends, if_neg h_bs]
          have h_rest := ih (h.symm.trans (if_neg h_bs) |>.symm)
          cases h_rest with
          | full le bytes_eq ends_eq =>
            exact .full le (bytes_eq.trans h_bytes) (ends_eq.trans h_ends)
          | pending bytes_eq ends_eq =>
            exact .pending (bytes_eq.trans h_bytes) (ends_eq.trans h_ends)
          | ended ends_eq lt => exact .ended (h_ends ▸ ends_eq) (h_bytes ▸ lt)
          | err ends_eq => exact .err (h_ends ▸ ends_eq)
    · rw [readAtLeast_of_le h_le] at h
      cases h
      exact .full h_le rfl rfl

/-! #### How far a call reads -/

/-- The reads of a schedule that are not pending. -/
def reads (es : List ReadEvent) : List ReadEvent := es.filter (· ≠ .pending)

@[simp] theorem reads_pending (es : List ReadEvent) : reads (.pending :: es) = reads es := rfl

@[simp] theorem reads_data (bs : List UInt8) (es : List ReadEvent) :
    reads (.data bs :: es) = .data bs :: reads es := rfl

@[simp] theorem reads_err (message : String) (es : List ReadEvent) :
    reads (.err message :: es) = .err message :: reads es := rfl

@[simp] theorem reads_append (es es' : List ReadEvent) :
    reads (es ++ es') = reads es ++ reads es' :=
  List.filter_append _ _

@[simp] theorem bytesOf_reads (es : List ReadEvent) : bytesOf (reads es) = bytesOf es := by
  induction es with
  | nil => rfl
  | cons e es ih =>
    cases e with
    | pending => exact ih
    | data bs => exact congrArg (bs ++ ·) ih
    | err message => exact ih

/-- **A call that is pending goes on later as if it had not been.** -/
theorem readAtLeast_reads (h : readAtLeast length buffer es = (f, buffer', es')) :
    readAtLeast length buffer (reads es) =
      if f = .pending then readAtLeast length buffer' (reads es') else (f, buffer', reads es') := by
  -- on the schedule, from which the waits are left out
  induction es generalizing buffer with
  | nil =>
    rw [readAtLeast] at h
    split at h
    · next h_le => cases h; exact readAtLeast_of_le h_le _
    · cases h; rfl
  | cons e es ih =>
    rcases Nat.lt_or_ge buffer.length length with h_lt | h_le
    · rw [readAtLeast_of_lt h_lt] at h
      cases e with
      | pending => cases h; rfl
      | err message => cases h; exact readAtLeast_of_lt h_lt _ _
      | data bs =>
        rw [reads_data, readAtLeast_of_lt h_lt]
        dsimp only at h ⊢
        split at h
        · next h_nil => cases h; exact if_pos h_nil
        · next h_ne => exact (if_neg h_ne).trans (ih h)
    · rw [readAtLeast_of_le h_le] at h ⊢
      cases h
      rfl

/-- Reads that bring bytes, or nothing yet. -/
inductive Flows : List ReadEvent → Prop
  | nil : Flows []
  | pending {es : List ReadEvent} (rest : Flows es) : Flows (.pending :: es)
  | data {bs : List UInt8} {es : List ReadEvent} (ne_nil : bs ≠ []) (rest : Flows es) :
      Flows (.data bs :: es)

/-- The other events of a schedule do not bear on whether its reads flow. -/
theorem flows_of_reads {es : List ReadEvent} (h : Flows (reads es)) : Flows es := by
  induction es with
  | nil => exact .nil
  | cons e es ih =>
    cases e with
    | pending => exact .pending (ih h)
    | err message => cases h
    | data bs =>
      cases h with
      | data ne_nil rest => exact .data ne_nil (ih rest)

/-- An event that is not pending stands in the schedule where it stands among the reads. -/
theorem split_of_reads {es es₁ es₂ : List ReadEvent} {e : ReadEvent}
    (h : reads es = es₁ ++ e :: es₂) :
    ∃ es₁' es₂', es = es₁' ++ e :: es₂' ∧ reads es₁' = es₁ ∧ reads es₂' = es₂ := by
  obtain ⟨es₁', es', rfl, h_es₁, h_es'⟩ := List.filter_eq_append_iff.mp h
  obtain ⟨es₂', es₃, rfl, h_skipped, -, h_es₃⟩ := List.filter_eq_cons_iff.mp h_es'
  refine ⟨es₁' ++ es₂', es₃, (List.append_assoc _ _ _).symm, ?_, h_es₃⟩
  have h_none : reads es₂' = [] := List.filter_eq_nil_iff.mpr h_skipped
  rw [reads_append, h_none, List.append_nil]
  exact h_es₁

theorem Flows.snoc {bs : List UInt8} (h : Flows es) (h_bs : bs ≠ []) :
    Flows (es ++ [.data bs]) := by
  induction h with
  | nil => exact .data h_bs .nil
  | pending _ ih => exact .pending ih
  | data ne_nil _ ih => exact .data ne_nil ih

/-- What flows and is too short is read. -/
theorem readAtLeast_flow {es₁ es₂ : List ReadEvent} (h : Flows es₁)
    (h_lt : (buffer ++ bytesOf es₁).length < length) :
    readAtLeast length buffer (reads es₁ ++ es₂) =
      readAtLeast length (buffer ++ bytesOf es₁) es₂ := by
  -- on what flows; no piece of it fills the buffer
  induction h generalizing buffer with
  | nil => rw [bytesOf_nil, List.append_nil]; rfl
  | pending _ ih => exact ih h_lt
  | @data bs es ne_nil rest ih =>
    change (buffer ++ (bs ++ bytesOf es)).length < length at h_lt
    have h_short : buffer.length < length := by
      rw [List.length_append] at h_lt
      omega
    rw [← List.append_assoc] at h_lt
    show readAtLeast length buffer (.data bs :: (reads es ++ es₂)) =
      readAtLeast length (buffer ++ (bs ++ bytesOf es)) es₂
    rw [readAtLeast_of_lt h_short, ← List.append_assoc]
    exact (if_neg ne_nil).trans (ih h_lt)

/-- What a call that starts with an empty buffer has read when it is not pending: `es` is the
schedule without its pending answers. -/
inductive Reached (length : ℕ) (es : List ReadEvent) : Filled → List UInt8 → List ReadEvent → Prop
  | full {es₁ es₂ : List ReadEvent} {bs : List UInt8} (flows : Flows es₁) (ne_nil : bs ≠ [])
      (es_eq : es = es₁ ++ .data bs :: es₂) (lt : (bytesOf es₁).length < length)
      (le : length ≤ (bytesOf es₁ ++ bs).length) : Reached length es .full (bytesOf es₁ ++ bs) es₂
  | ended {es₁ es₂ : List ReadEvent} (flows : Flows es₁) (es_eq : es = es₁ ++ .data [] :: es₂)
      (lt : (bytesOf es₁).length < length) : Reached length es .ended (bytesOf es₁) es₂
  | failed {f : Filled} {buffer : List UInt8} {es₂ : List ReadEvent} (not_full : f ≠ .full)
      (not_ended : f ≠ .ended) : Reached length es f buffer es₂

/-- How far a call on an empty buffer has read. -/
theorem reached_of_readAtLeast (h_pos : 0 < length)
    (h : readAtLeast length [] es = (f, buffer', es')) : Reached length es f buffer' es' := by
  -- the reads before are kept in front
  suffices h_from : ∀ es₀ es, Flows es₀ → (bytesOf es₀).length < length →
      readAtLeast length (bytesOf es₀) es = (f, buffer', es') →
      Reached length (es₀ ++ es) f buffer' es' from h_from [] es .nil h_pos h
  intro es₀ es h_flows h_lt h
  induction es generalizing es₀ with
  | nil =>
    rw [readAtLeast, if_neg (Nat.not_le_of_lt h_lt)] at h
    cases h
    exact .failed (by decide) (by decide)
  | cons e es ih =>
    rw [readAtLeast_of_lt h_lt] at h
    cases e with
    | pending => cases h; exact .failed (by decide) (by decide)
    | err message => cases h; exact .failed (fun hf => by cases hf) (fun hf => by cases hf)
    | data bs =>
      dsimp only at h
      split at h
      · next h_nil => cases h; subst h_nil; exact .ended h_flows rfl h_lt
      · next h_ne =>
        have h_bytes : bytesOf (es₀ ++ [.data bs]) = bytesOf es₀ ++ bs := by
          rw [bytesOf_append, bytesOf_cons, bytesOf_nil, List.append_nil]
          rfl
        rcases Nat.lt_or_ge (bytesOf es₀ ++ bs).length length with h_lt' | h_le
        · rw [← h_bytes] at h h_lt'
          have h_reached := ih (es₀ ++ [.data bs]) (h_flows.snoc h_ne) h_lt' h
          rwa [List.append_assoc] at h_reached
        · rw [readAtLeast_of_le h_le] at h
          cases h
          exact .full h_flows h_ne rfl h_lt h_le

/-- A longer read goes on from a shorter one. -/
theorem readAtLeast_longer {more : ℕ} (h_le : length ≤ more)
    (h : readAtLeast length buffer es = (.full, buffer', es')) :
    readAtLeast more buffer es = readAtLeast more buffer' es' := by
  -- on the schedule; the shorter read is full at the first step at which it may be
  induction es generalizing buffer with
  | nil =>
    rw [readAtLeast] at h
    split at h <;> cases h
    rfl
  | cons e es ih =>
    rcases Nat.lt_or_ge buffer.length length with h_lt | h_ge
    · rw [readAtLeast_of_lt (Nat.lt_of_lt_of_le h_lt h_le)]
      rw [readAtLeast_of_lt h_lt] at h
      cases e with
      | pending => cases h
      | err message => cases h
      | data bs =>
        dsimp only at h ⊢
        split at h
        · cases h
        · next h_ne => exact (if_neg h_ne).trans (ih h)
    · rw [readAtLeast_of_le h_ge] at h
      cases h
      rfl

/-- A read that gets far enough has filled a shorter one. -/
theorem readAtLeast_shorter {more : ℕ} (h_le : length ≤ more)
    (h : readAtLeast more buffer es = (f, buffer', es')) (h_len : length ≤ buffer'.length) :
    ∃ b e, readAtLeast length buffer es = (.full, b, e) := by
  -- on the schedule; both reads take the same steps until the shorter one is full
  induction es generalizing buffer with
  | nil =>
    rw [readAtLeast] at h
    split at h <;> cases h <;> exact ⟨_, _, readAtLeast_of_le h_len _⟩
  | cons e es ih =>
    rcases Nat.lt_or_ge buffer.length length with h_lt | h_ge
    · rw [readAtLeast_of_lt (Nat.lt_of_lt_of_le h_lt h_le)] at h
      rw [readAtLeast_of_lt h_lt]
      cases e with
      | pending => cases h; exact absurd h_lt (Nat.not_lt_of_le h_len)
      | err message => cases h; exact absurd h_lt (Nat.not_lt_of_le h_len)
      | data bs =>
        dsimp only at h ⊢
        split at h
        · cases h; exact absurd h_lt (Nat.not_lt_of_le h_len)
        · next h_ne =>
          rw [if_neg h_ne]
          exact ih h
    · exact ⟨_, _, readAtLeast_of_le h_ge _⟩

/-- Bytes that have been taken off the front play no part. -/
theorem readAtLeast_drop {n : ℕ} (h_n : n ≤ buffer.length)
    (h : readAtLeast (n + length) buffer es = (f, buffer', es')) :
    readAtLeast length (buffer.drop n) es = (f, buffer'.drop n, es') := by
  -- without the first `n` bytes the buffer is too short when it was, and only then
  have h_len {xs : List UInt8} (h_xs : n ≤ xs.length) :
      (xs.drop n).length < length ↔ xs.length < n + length := by
    rw [List.length_drop]
    omega
  induction es generalizing buffer with
  | nil =>
    rw [readAtLeast] at h ⊢
    split at h
    · next h_ge =>
      cases h
      exact if_pos (Nat.le_of_not_lt fun h_lt =>
        absurd ((h_len h_n).mp h_lt) (Nat.not_lt_of_le h_ge))
    · next h_lt =>
      cases h
      exact if_neg (Nat.not_le_of_lt ((h_len h_n).mpr (Nat.lt_of_not_le h_lt)))
  | cons e es ih =>
    rcases Nat.lt_or_ge buffer.length (n + length) with h_lt | h_ge
    · rw [readAtLeast_of_lt ((h_len h_n).mpr h_lt)]
      rw [readAtLeast_of_lt h_lt] at h
      cases e with
      | pending => cases h; rfl
      | err message => cases h; rfl
      | data bs =>
        dsimp only at h ⊢
        split at h
        · next h_nil => cases h; exact if_pos h_nil
        · next h_ne =>
          rw [if_neg h_ne, ← List.drop_append_of_le_length h_n]
          exact ih (by rw [List.length_append]; omega) h
    · rw [readAtLeast_of_le h_ge] at h
      cases h
      refine readAtLeast_of_le (Nat.le_of_not_lt fun h_lt => ?_) _
      exact absurd ((h_len h_n).mp h_lt) (Nat.not_lt_of_le h_ge)

end ReadAtLeast

/-- Reading into a buffer that has room for `length` bytes in all: a read that brings more
leaves the rest below. -/
def readExact (length : ℕ) : List UInt8 → List ReadEvent → Filled × List UInt8 × List ReadEvent
  | buffer, [] => if length ≤ buffer.length then (.full, buffer, []) else (.pending, buffer, [])
  | buffer, e :: es =>
    if length ≤ buffer.length then (.full, buffer, e :: es)
    else match e with
      | .pending => (.pending, buffer, es)
      | .err message => (.err message, buffer, es)
      | .data bs =>
        let room := length - buffer.length
        if bs = [] then (.ended, buffer, es)
        else if bs.length ≤ room then readExact length (buffer ++ bs) es
        else (.full, buffer ++ bs.take room, .data (bs.drop room) :: es)

section ReadExact

variable {length : ℕ} {buffer buffer' : List UInt8} {es es' : List ReadEvent} {f : Filled}

theorem readExact_of_le (h : length ≤ buffer.length) (es : List ReadEvent) :
    readExact length buffer es = (.full, buffer, es) := by
  cases es <;> rw [readExact.eq_def] <;> exact if_pos h

/-- `readExact` with room left, by the next event. -/
theorem readExact_of_lt (h : buffer.length < length) (e : ReadEvent) (es : List ReadEvent) :
    readExact length buffer (e :: es) = match e with
      | .pending => (.pending, buffer, es)
      | .err message => (.err message, buffer, es)
      | .data bs =>
        let room := length - buffer.length
        if bs = [] then (.ended, buffer, es)
        else if bs.length ≤ room then readExact length (buffer ++ bs) es
        else (.full, buffer ++ bs.take room, .data (bs.drop room) :: es) := by
  rw [readExact.eq_def]
  exact if_neg (Nat.not_le_of_lt h)

/-- Nothing is lost, and the buffer is never longer than asked for. -/
theorem readExact_cases (h_le : buffer.length ≤ length)
    (h : readExact length buffer es = (f, buffer', es')) :
    buffer' ++ bytesOf es' = buffer ++ bytesOf es ∧ buffer'.length ≤ length ∧
      (f = .full → buffer'.length = length) := by
  induction es generalizing buffer with
  | nil =>
    rw [readExact] at h
    split at h
    · next h_ge => cases h; exact ⟨rfl, h_le, fun _ => Nat.le_antisymm h_le h_ge⟩
    · cases h; exact ⟨rfl, h_le, fun hf => (by cases hf)⟩
  | cons e es ih =>
    rcases Nat.lt_or_ge buffer.length length with h_lt | h_ge
    · rw [readExact_of_lt h_lt] at h
      cases e with
      | pending => cases h; exact ⟨rfl, h_le, fun hf => (by cases hf)⟩
      | err message => cases h; exact ⟨rfl, h_le, fun hf => (by cases hf)⟩
      | data bs =>
        dsimp only at h
        split at h
        · next h_nil => cases h; exact ⟨by rw [h_nil]; rfl, h_le, fun hf => (by cases hf)⟩
        · split at h
          -- all of the segment fits
          · next h_fits =>
            have h_le' : (buffer ++ bs).length ≤ length := by
              rw [List.length_append]
              omega
            obtain ⟨h_bytes, h_rest⟩ := ih h_le' h
            refine ⟨?_, h_rest⟩
            rw [h_bytes, bytesOf_cons, List.append_assoc]
            rfl
          · next h_long =>
            -- the rest of the segment stays in the schedule
            cases h
            have h_len : (buffer ++ bs.take (length - buffer.length)).length = length := by
              rw [List.length_append, List.length_take]
              omega
            refine ⟨?_, Nat.le_of_eq h_len, fun _ => h_len⟩
            show buffer ++ bs.take _ ++ (bs.drop _ ++ bytesOf es) = buffer ++ (bs ++ bytesOf es)
            rw [List.append_assoc, ← List.append_assoc (bs.take _), List.take_append_drop]
    · rw [readExact_of_le h_ge] at h
      cases h
      exact ⟨rfl, h_le, fun _ => Nat.le_antisymm h_le h_ge⟩

/-- The same for `read_exact`. -/
theorem readExact_clean (h : Clean es) (h_read : readExact length buffer es = (f, buffer', es')) :
    ReadClean length es f buffer' es' := by
  induction h generalizing buffer with
  | nil =>
    rw [readExact] at h_read
    split at h_read
    · next h_le => cases h_read; exact .full .nil h_le (Nat.le_refl _)
    · next h_lt => cases h_read; exact .waiting (Nat.lt_of_not_le h_lt)
  | @pending es rest _ =>
    rcases Nat.lt_or_ge buffer.length length with h_lt | h_le
    · rw [readExact_of_lt h_lt] at h_read
      cases h_read
      exact .pending rest h_lt (by simp [pendings])
    · rw [readExact_of_le h_le] at h_read
      cases h_read
      exact .full rest.pending h_le (Nat.le_refl _)
  | @data bs es ne_nil rest ih =>
    rcases Nat.lt_or_ge buffer.length length with h_lt | h_le
    · rw [readExact_of_lt h_lt] at h_read
      dsimp only at h_read
      rw [if_neg ne_nil] at h_read
      split at h_read
      · exact (ih h_read).data
      · next h_long =>
        -- the buffer is full, and the rest of the segment stays below
        cases h_read
        refine .full (rest.data ?_) ?_ (by simp [pendings])
        · rw [← List.length_pos_iff, List.length_drop]
          omega
        · rw [List.length_append, List.length_take]
          omega
    · rw [readExact_of_le h_le] at h_read
      cases h_read
      exact .full (rest.data ne_nil) h_le (Nat.le_refl _)
  | @ended es rest no_bytes _ =>
    rcases Nat.lt_or_ge buffer.length length with h_lt | h_le
    · rw [readExact_of_lt h_lt] at h_read
      cases h_read
      exact .ended rest h_lt no_bytes
    · rw [readExact_of_le h_le] at h_read
      cases h_read
      exact .full (rest.ended no_bytes) h_le (Nat.le_refl _)

end ReadExact

/-- A read of the stream below into a buffer with so much room. -/
def pollReadBuf (room : ℕ) : List ReadEvent → Poll (Except String (List UInt8)) × List ReadEvent
  | [] => (.pending, [])
  | .pending :: es => (.pending, es)
  | .err message :: es => (.ready (.error message), es)
  | .data bs :: es =>
    if bs.length ≤ room then (.ready (.ok bs), es)
    else (.ready (.ok (bs.take room)), .data (bs.drop room) :: es)

/-- The rounds that a loop of reads makes at most: each takes an event off, or bytes. -/
def rounds (es : List ReadEvent) : ℕ := (bytesOf es).length + es.length

/-- What one write to the stream below answers: `accept n` takes up to `n` bytes. -/
inductive WriteEvent
  | pending
  | accept (n : ℕ)
  | err (message : String)
  deriving DecidableEq, Repr

/-- The polls that a schedule answers with pending. -/
def writePendings (ws : List WriteEvent) : ℕ := ws.countP (· = .pending)

/-- The writes that a schedule does not answer with pending. -/
def accepts (ws : List WriteEvent) : ℕ := ws.countP (· ≠ .pending)

/-- A stream that works: each write is pending or takes at least a byte. -/
inductive Working : List WriteEvent → Prop
  | nil : Working []
  | pending {ws : List WriteEvent} (rest : Working ws) : Working (.pending :: ws)
  | accept {n : ℕ} {ws : List WriteEvent} (pos : 0 < n) (rest : Working ws) :
      Working (.accept n :: ws)

theorem working_replicate (n : ℕ) {k : ℕ} (h : 0 < k) : Working (List.replicate n (.accept k)) := by
  induction n with
  | zero => exact .nil
  | succ n ih => exact .accept h ih

theorem writePendings_replicate (n k : ℕ) :
    writePendings (List.replicate n (.accept k)) = 0 := by
  rw [writePendings, List.countP_replicate]
  rfl

theorem accepts_replicate (n k : ℕ) : accepts (List.replicate n (.accept k)) = n := by
  rw [accepts, List.countP_replicate]
  rfl

/-- What `write_data` leaves. -/
structure Written where
  result : Poll (Except String Unit)
  pos : ℕ
  /-- the bytes that the stream below has taken -/
  out : List UInt8
  events : List WriteEvent

/-- `write_data`: write what the buffer holds from `pos` on. -/
def writeData (buffer : List UInt8) : ℕ → List WriteEvent → Written
  | pos, [] =>
    if pos < buffer.length then ⟨.pending, pos, [], []⟩ else ⟨.ready (.ok ()), pos, [], []⟩
  | pos, w :: ws =>
    if pos < buffer.length then
      match w with
      | .pending => ⟨.pending, pos, [], ws⟩
      | .err message => ⟨.ready (.error message), pos, [], ws⟩
      | .accept n =>
        let taken := (buffer.drop pos).take n
        if taken = [] then ⟨.ready (.error "write zero byte into writer"), pos, [], ws⟩
        else
          let x := writeData buffer (pos + taken.length) ws
          { x with out := taken ++ x.out }
    else ⟨.ready (.ok ()), pos, [], w :: ws⟩

/-- **Writing to a stream that works**: everything is taken, or the write is pending, and then
a pending poll is spent or the schedule is over. -/
inductive WriteClean (buffer : List UInt8) (pos : ℕ) (ws : List WriteEvent) : Written → Prop
  | done {pos' : ℕ} {ws' : List WriteEvent} (working : Working ws')
      (pendings_le : writePendings ws' ≤ writePendings ws)
      (accepts_le : accepts ws ≤ (buffer.drop pos).length + accepts ws') :
      WriteClean buffer pos ws ⟨.ready (.ok ()), pos', buffer.drop pos, ws'⟩
  | pending {pos' : ℕ} {out : List UInt8} {ws' : List WriteEvent} (working : Working ws')
      (lt : pos' < buffer.length) (out_eq : out ++ buffer.drop pos' = buffer.drop pos)
      (spent : writePendings ws' < writePendings ws ∨ ws' = [])
      (accepts_le : accepts ws ≤ out.length + accepts ws') :
      WriteClean buffer pos ws ⟨.pending, pos', out, ws'⟩

/-- The loop of writes on a schedule that works. -/
theorem writeClean {buffer : List UInt8} {pos : ℕ} {ws : List WriteEvent} (h : Working ws) :
    WriteClean buffer pos ws (writeData buffer pos ws) := by
  -- on the schedule; `pos` goes up with each write
  induction h generalizing pos with
  | nil =>
    rw [writeData]
    split
    · next h_lt => exact .pending .nil h_lt rfl (Or.inr rfl) (Nat.le_refl _)
    · next h_ge =>
      rw [← List.drop_eq_nil_of_le (Nat.le_of_not_lt h_ge)]
      exact .done .nil (Nat.le_refl _) (Nat.zero_le _)
  | @pending ws rest _ =>
    rw [writeData]
    split
    · next h_lt =>
      exact .pending rest h_lt rfl (Or.inl (by simp [writePendings])) (by simp [accepts])
    · next h_ge =>
      rw [← List.drop_eq_nil_of_le (Nat.le_of_not_lt h_ge)]
      exact .done rest.pending (Nat.le_refl _) (Nat.le_add_left _ _)
  | @accept n ws n_pos rest ih =>
    rw [writeData]
    split
    · next h_lt =>
      have h_taken : (buffer.drop pos).take n ≠ [] := by
        rw [← List.length_pos_iff, List.length_take, List.length_drop]
        omega
      -- what a write takes comes off the front of what is not yet written
      have h_rest : (buffer.drop pos).take n ++
          buffer.drop (pos + ((buffer.drop pos).take n).length)
          = buffer.drop pos := by
        rw [← List.drop_drop, List.length_take]
        rcases Nat.le_total n (buffer.drop pos).length with h_le | h_ge
        · rw [Nat.min_eq_left h_le, List.take_append_drop]
        · rw [Nat.min_eq_right h_ge, List.take_of_length_le h_ge, List.drop_length, List.append_nil]
      have h_pos := List.length_pos_iff.mpr h_taken
      have h_accepts : accepts (.accept n :: ws) = accepts ws + 1 := by simp [accepts]
      dsimp only
      rw [if_neg h_taken]
      generalize (buffer.drop pos).take n = taken at h_rest h_pos ⊢
      have h_ih : WriteClean buffer (pos + taken.length) ws
          (writeData buffer (pos + taken.length) ws) := ih
      generalize writeData buffer (pos + taken.length) ws = x at h_ih ⊢
      cases h_ih with
      | @done _ ws' working pendings_le accepts_le =>
        rw [h_rest]
        refine .done working pendings_le ?_
        show accepts (.accept n :: ws) ≤ _ + accepts ws'
        rw [← h_rest, List.length_append]
        omega
      | @pending _ out ws' working lt out_eq spent accepts_le =>
        refine .pending working lt ?_ spent ?_
        · rw [List.append_assoc, out_eq, h_rest]
        · show accepts (.accept n :: ws) ≤ (taken ++ out).length + accepts ws'
          rw [List.length_append]
          omega
    · next h_ge =>
      rw [← List.drop_eq_nil_of_le (Nat.le_of_not_lt h_ge)]
      exact .done (rest.accept n_pos) (Nat.le_refl _) (Nat.le_add_left _ _)

/-- A write that is pending or takes something. -/
def WriteEvent.Works : WriteEvent → Prop
  | pending => True
  | accept n => 0 < n
  | err _ => False

/-- A schedule works if each of its answers does. -/
theorem working_iff {ws : List WriteEvent} : Working ws ↔ ∀ w ∈ ws, w.Works := by
  constructor
  · intro h
    induction h with
    | nil => exact fun w h_w => (by cases h_w)
    | pending _ ih => exact List.forall_mem_cons.mpr ⟨trivial, ih⟩
    | accept pos _ ih => exact List.forall_mem_cons.mpr ⟨pos, ih⟩
  · intro h
    induction ws with
    | nil => exact .nil
    | cons w ws ih =>
      obtain ⟨h_w, h_ws⟩ := List.forall_mem_cons.mp h
      cases w with
      | pending => exact .pending (ih h_ws)
      | accept n => exact .accept h_w (ih h_ws)
      | err message => exact h_w.elim

/-- How far a call of `write_data` got with what it has used of the schedule: it fails exactly
if it has met a write that does not work. -/
inductive WriteUsed (buffer : List UInt8) (pos : ℕ) (ws : List WriteEvent) : Written → Prop
  | pending {pos' : ℕ} {out : List UInt8} {used ws' : List WriteEvent} (ws_eq : ws = used ++ ws')
      (works : ∀ w ∈ used, w.Works) (lt : pos' < buffer.length)
      (out_eq : buffer.take pos ++ out = buffer.take pos') :
      WriteUsed buffer pos ws ⟨.pending, pos', out, ws'⟩
  | done {pos' : ℕ} {out : List UInt8} {used ws' : List WriteEvent} (ws_eq : ws = used ++ ws')
      (works : ∀ w ∈ used, w.Works) (out_eq : buffer.take pos ++ out = buffer) :
      WriteUsed buffer pos ws ⟨.ready (.ok ()), pos', out, ws'⟩
  | failed {message : String} {pos' : ℕ} {out : List UInt8} {used ws' : List WriteEvent}
      (ws_eq : ws = used ++ ws') (fails : ∃ w ∈ used, ¬ w.Works) (lt : pos' < buffer.length)
      (out_eq : buffer.take pos ++ out = buffer.take pos') :
      WriteUsed buffer pos ws ⟨.ready (.error message), pos', out, ws'⟩

/-- What the loop of writes has used up of its schedule. -/
theorem writeUsed (buffer : List UInt8) (pos : ℕ) (ws : List WriteEvent) :
    WriteUsed buffer pos ws (writeData buffer pos ws) := by
  have h_done {pos : ℕ} (ws : List WriteEvent) (h_ge : ¬ pos < buffer.length) :
      WriteUsed buffer pos ws ⟨.ready (.ok ()), pos, [], ws⟩ := by
    refine .done (List.nil_append ws).symm (fun _ h => (by cases h)) ?_
    rw [List.append_nil, List.take_of_length_le (Nat.le_of_not_lt h_ge)]
  induction ws generalizing pos with
  | nil =>
    rw [writeData]
    split
    · next h_lt =>
      exact .pending (List.nil_append []).symm (fun _ h => (by cases h)) h_lt (List.append_nil _)
    · next h_ge => exact h_done [] h_ge
  | cons w ws ih =>
    rw [writeData.eq_def]
    dsimp only
    split
    · next h_lt =>
      have h_one : w :: ws = [w] ++ ws := rfl
      cases w with
      | pending =>
        refine .pending h_one (fun w h_w => ?_) h_lt (List.append_nil _)
        rw [List.mem_singleton.mp h_w]
        exact trivial
      | err message =>
        exact .failed h_one ⟨_, List.mem_singleton.mpr rfl, id⟩ h_lt (List.append_nil _)
      | accept n =>
        dsimp only
        split
        · next h_nil =>
          -- nothing is taken of what is left only if nothing is accepted
          refine .failed h_one ⟨_, List.mem_singleton.mpr rfl, fun h_works => ?_⟩ h_lt
            (List.append_nil _)
          have h_len := congrArg List.length h_nil
          rw [List.length_take, List.length_drop, List.length_nil] at h_len
          have h_pos : 0 < n := h_works
          omega
        · next h_ne =>
          have h_works : (WriteEvent.accept n).Works := by
            show 0 < n
            refine Nat.pos_of_ne_zero fun h_zero => h_ne ?_
            rw [h_zero, List.take_zero]
          have h_take : buffer.take pos ++ (buffer.drop pos).take n =
              buffer.take (pos + ((buffer.drop pos).take n).length) := by
            rw [List.take_add, ← List.prefix_iff_eq_take.mp (List.take_prefix n (buffer.drop pos))]
          generalize (buffer.drop pos).take n = taken at h_take ⊢
          have h_ih := ih (pos + taken.length)
          have h_all {used : List WriteEvent} (h : ∀ w ∈ used, w.Works) :
              ∀ w ∈ WriteEvent.accept n :: used, w.Works := by
            intro w h_w
            rcases List.mem_cons.mp h_w with rfl | h_w
            · exact h_works
            · exact h w h_w
          generalize writeData buffer (pos + taken.length) ws = x at h_ih ⊢
          cases h_ih with
          | pending ws_eq works lt out_eq =>
            refine .pending (congrArg (_ :: ·) ws_eq) (h_all works) lt ?_
            rw [← out_eq, ← h_take, List.append_assoc]
          | done ws_eq works out_eq =>
            refine .done (congrArg (_ :: ·) ws_eq) (h_all works) ?_
            rw [← List.append_assoc, h_take, out_eq]
          | failed ws_eq fails lt out_eq =>
            obtain ⟨w, h_w, h_fails⟩ := fails
            refine .failed (congrArg (_ :: ·) ws_eq) ⟨w, List.mem_cons_of_mem _ h_w, h_fails⟩ lt ?_
            rw [← out_eq, ← h_take, List.append_assoc]
    · next h_ge => exact h_done (w :: ws) h_ge

/-- The answers that the writes of `write_data` get; at the end of the schedule it is pending. -/
def writeAnswers (buffer : List UInt8) : ℕ → List WriteEvent → List WriteEvent
  | pos, [] => if pos < buffer.length then [.pending] else []
  | pos, w :: ws =>
    if pos < buffer.length then
      match w with
      | .pending => [.pending]
      | .err message => [.err message]
      | .accept n =>
        let taken := (buffer.drop pos).take n
        if taken = [] then [.accept n] else .accept n :: writeAnswers buffer (pos + taken.length) ws
    else []

/-- **Waiting**: `write_data` is pending only if the last write was. -/
theorem writeAnswers_pending {buffer : List UInt8} {pos : ℕ} {ws : List WriteEvent}
    (h : (writeData buffer pos ws).result = .pending) :
    (writeAnswers buffer pos ws).getLast? = some .pending := by
  -- a write that takes something is not the last one
  induction ws generalizing pos with
  | nil =>
    rw [writeData] at h
    rw [writeAnswers]
    split at h
    · next h_lt => rw [if_pos h_lt]; rfl
    · cases h
  | cons w ws ih =>
    rw [writeData.eq_def] at h
    rw [writeAnswers.eq_def]
    dsimp only at h ⊢
    split at h
    · next h_lt =>
      rw [if_pos h_lt]
      cases w with
      | pending => rfl
      | err message => cases h
      | accept n =>
        dsimp only at h ⊢
        split at h
        · cases h
        · next h_ne =>
          rw [if_neg h_ne]
          have h_rest := ih h
          rw [List.getLast?_cons, h_rest]
          rfl
    · cases h

end V2ray
