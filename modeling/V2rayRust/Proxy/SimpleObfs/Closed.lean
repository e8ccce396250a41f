import V2rayRust.Proxy.SimpleObfs.Http

/-!
# Servers that close before their header ends

The first loop of `HttpObfs::priv_poll_read` leaves only at a pending read or at the end of the
header: it looks neither at an error nor at a read of no bytes. Over a stream that has ended, and
reads no bytes from then on, it goes round forever. So a poll returns as long as there are reads
still pending, and the one after them does not (`privPollRead_returns_iff`).

A poll is given the number of reads that it may make below; it has returned if it needs no more.
-/

namespace V2ray

namespace HttpObfs

/-- What a poll leaves, over any stream below. -/
structure BelowPoll (σ : Type) where
  state : ReadState
  below : σ
  result : Poll (Except String Unit)
  put : List UInt8

section Below

variable {σ : Type} (read : σ → Poll (Except String (List UInt8)) × σ)

/-- The first loop of `priv_poll_read` with so many calls of `poll_read` below, if it has returned
by then. -/
def headCalls : ℕ → σ → Option (BelowPoll σ)
  | 0, _ => none
  | n + 1, s =>
    match read s with
    | (.pending, s) => some ⟨.head, s, .pending, []⟩
    | (.ready res, s) =>
      let filled := match res with
        | .ok bs => bs
        | .error _ => []
      match position headEnd filled with
      | some k => some ⟨.body, s, .ready (.ok ()), filled.drop (k + 4)⟩
      | none => headCalls n s

/-- `priv_poll_read` with so many calls below. -/
def pollCalls (n : ℕ) (state : ReadState) (s : σ) : Option (BelowPoll σ) :=
  match state, n with
  | .head, n => headCalls read n s
  | .body, 0 => none
  | .body, _ + 1 =>
    match read s with
    | (.pending, s) => some ⟨.body, s, .pending, []⟩
    | (.ready (.error message), s) => some ⟨.body, s, .ready (.error message), []⟩
    | (.ready (.ok bs), s) => some ⟨.body, s, .ready (.ok ()), bs⟩

end Below

/-- The loop is the one that is read from a schedule. -/
theorem readHead_eq (room n : ℕ) (es : List ReadEvent) :
    readHead room n es = match headCalls (pollReadBuf room) n es with
      | some x => .ok ⟨x.state, x.below, x.result, x.put⟩
      | none => .error .diverge := by
  induction n generalizing es with
  | zero => rfl
  | succ n ih =>
    rw [readHead, headCalls]
    rcases pollReadBuf room es with ⟨answer, es'⟩
    cases answer with
    | pending => rfl
    | ready res =>
      cases res with
      | error message => exact ih es'
      | ok bs =>
        dsimp only
        cases position headEnd bs with
        | some k => rfl
        | none => exact ih es'

/-- A read of a stream with these answers, which has ended after them. -/
def readClosed (room : ℕ) : List ReadEvent → Poll (Except String (List UInt8)) × List ReadEvent
  | [] => (.ready (.ok []), [])
  | e :: es => pollReadBuf room (e :: es)

/-- Polls with these destinations all return. -/
def AllReturn : List ℕ → ReadState → List ReadEvent → Prop
  | [], _, _ => True
  | room :: rooms, state, es =>
    ∃ n x, pollCalls (readClosed room) n state es = some x ∧ AllReturn rooms x.state x.below

/-! ### One poll -/

variable {room n : ℕ} {es es' : List ReadEvent} {answer : Poll (Except String (List UInt8))}
  {x : BelowPoll (List ReadEvent)}

/-- What a read does when the four bytes are nowhere in the stream. -/
inductive ReadsNoEnd (room : ℕ) (es : List ReadEvent) :
    Poll (Except String (List UInt8)) → List ReadEvent → Prop
  | pending {es' : List ReadEvent} (spent : pendings es = pendings es' + 1)
      (no_end : position headEnd (bytesOf es') = none) : ReadsNoEnd room es .pending es'
  | err {message : String} {es' : List ReadEvent} (same : pendings es = pendings es')
      (no_end : position headEnd (bytesOf es') = none) (fewer : rounds es' < rounds es) :
      ReadsNoEnd room es (.ready (.error message)) es'
  | bytes {bs : List UInt8} {es' : List ReadEvent} (same : pendings es = pendings es')
      (no_end : position headEnd (bytesOf es') = none) (not_here : position headEnd bs = none)
      (fewer : es ≠ [] → 0 < room → rounds es' < rounds es) :
      ReadsNoEnd room es (.ready (.ok bs)) es'

/-- A read of a stream without the end of a head. -/
theorem readClosed_noEnd (h : position headEnd (bytesOf es) = none)
    (h_read : readClosed room es = (answer, es')) : ReadsNoEnd room es answer es' := by
  cases es with
  | nil =>
    cases h_read
    exact .bytes rfl rfl rfl fun h_ne => absurd rfl h_ne
  | cons e es =>
    cases e with
    | pending =>
      cases h_read
      exact .pending (by simp [pendings]) h
    | err message =>
      cases h_read
      exact .err (by simp [pendings]) h (by simp [rounds, ReadEvent.bytes])
    | data bs =>
      change position headEnd (bs ++ bytesOf es) = none at h
      have h_here {part rest : List UInt8} (h_eq : bs ++ bytesOf es = part ++ rest) :
          position headEnd part = none ∧ position headEnd rest = none := by
        rw [h_eq] at h
        constructor
        · exact @position_none_part _ _ part [] rest _ h
        · exact @position_none_part _ _ rest part [] _ (by rwa [List.append_nil])
      rw [readClosed, pollReadBuf] at h_read
      split at h_read
      · cases h_read
        obtain ⟨h_bs, h_rest⟩ := h_here rfl
        refine .bytes (by simp [pendings]) h_rest h_bs fun _ _ => ?_
        simp only [rounds, bytesOf_cons, ReadEvent.bytes, List.length_append, List.length_cons]
        omega
      · next h_long =>
        -- what does not fit into the destination is read again
        cases h_read
        have h_split : bs ++ bytesOf es = bs.take room ++ (bs.drop room ++ bytesOf es) := by
          rw [← List.append_assoc, List.take_append_drop]
        obtain ⟨h_bs, h_rest⟩ := h_here h_split
        refine .bytes (by simp [pendings]) h_rest h_bs fun _ h_room => ?_
        simp only [rounds, bytesOf_cons, ReadEvent.bytes, List.length_append, List.length_cons,
          List.length_drop]
        omega

/-- A poll that returns has met a pending read. -/
theorem headCalls_pending (h : position headEnd (bytesOf es) = none)
    (h_calls : headCalls (readClosed room) n es = some x) :
    x.state = .head ∧ pendings es = pendings x.below + 1 ∧
      position headEnd (bytesOf x.below) = none := by
  -- on the calls; an error or bytes without the end of a header are read over
  induction n generalizing es with
  | zero => cases h_calls
  | succ n ih =>
    rw [headCalls] at h_calls
    rcases h_read : readClosed room es with ⟨answer, es'⟩
    rw [h_read] at h_calls
    cases readClosed_noEnd h h_read with
    | pending spent no_end =>
      cases h_calls
      exact ⟨rfl, spent, no_end⟩
    | err same no_end =>
      rw [same]
      exact ih no_end h_calls
    | bytes same no_end not_here =>
      dsimp only at h_calls
      rw [not_here] at h_calls
      rw [same]
      exact ih no_end h_calls

/-- A poll meets the next pending read, if there is one. -/
theorem exists_headCalls (h_room : 0 < room) (h : position headEnd (bytesOf es) = none)
    (h_pendings : pendings es ≠ 0) : ∃ n x, headCalls (readClosed room) n es = some x := by
  -- by induction on the reads that come before it
  induction h_n : rounds es using Nat.strong_induction_on generalizing es with
  | _ n ih =>
    have h_ne : es ≠ [] := by
      rintro rfl
      exact h_pendings rfl
    rcases h_read : readClosed room es with ⟨answer, es'⟩
    cases readClosed_noEnd h h_read with
    | pending => exact ⟨1, _, by rw [headCalls, h_read]⟩
    | err same no_end fewer =>
      obtain ⟨k, x, h_x⟩ := ih _ (h_n ▸ fewer) no_end (same ▸ h_pendings) rfl
      exact ⟨k + 1, x, by rw [headCalls, h_read]; exact h_x⟩
    | bytes same no_end not_here fewer =>
      obtain ⟨k, x, h_x⟩ := ih _ (h_n ▸ fewer h_ne h_room) no_end (same ▸ h_pendings) rfl
      refine ⟨k + 1, x, ?_⟩
      rw [headCalls, h_read]
      dsimp only
      rw [not_here]
      exact h_x

/-! ### All polls -/

/-- Each poll that returns has met one of the pending reads. -/
theorem length_le_pendings {rooms : List ℕ} (h : position headEnd (bytesOf es) = none)
    (h_all : AllReturn rooms .head es) : rooms.length ≤ pendings es := by
  induction rooms generalizing es with
  | nil => exact Nat.zero_le _
  | cons room rooms ih =>
    obtain ⟨n, x, h_x, h_rest⟩ := h_all
    obtain ⟨h_state, h_spent, h_none⟩ := headCalls_pending h h_x
    rw [h_state] at h_rest
    rw [h_spent, List.length_cons]
    exact Nat.succ_le_succ (ih h_none h_rest)

/-- **Polls of a stream without the end of a header** that closes: the first ones return, as many as
there are pending reads, and the next one never does. -/
theorem privPollRead_returns_iff (h : position headEnd (bytesOf es) = none) :
    (∀ rooms : List ℕ, (∀ room ∈ rooms, 0 < room) →
      (AllReturn rooms .head es ↔ rooms.length ≤ pendings es)) ∧
    ∀ room : ℕ → ℕ, ¬ ∀ n, AllReturn ((List.range n).map room) .head es := by
  constructor
  · intro rooms h_rooms
    refine ⟨length_le_pendings h, fun h_le => ?_⟩
    -- on the polls; each takes one pending read
    induction rooms generalizing es with
    | nil => trivial
    | cons room rooms ih =>
      obtain ⟨h_room, h_rooms⟩ := List.forall_mem_cons.mp h_rooms
      rw [List.length_cons] at h_le
      obtain ⟨n, x, h_x⟩ := exists_headCalls h_room h (Nat.ne_of_gt (Nat.lt_of_lt_of_le
        (Nat.succ_pos _) h_le))
      obtain ⟨h_state, h_spent, h_none⟩ := headCalls_pending h h_x
      refine ⟨n, x, h_x, ?_⟩
      rw [h_state]
      exact ih h_none h_rooms (by omega)
  · intro room h_all
    have h_le := length_le_pendings h (h_all (pendings es + 1))
    rw [List.length_map, List.length_range] at h_le
    exact absurd h_le (Nat.not_succ_le_self _)

/-- A server that closes after the first line. -/
theorem privPollRead_returns_line :
    ¬ ∀ n, AllReturn ((List.range n).map fun _ => 16) .head
      [.pending, .data "HTTP/1.1 502\r\n".toUTF8.toList] :=
  (privPollRead_returns_iff (by decide +kernel)).2 fun _ => 16

/-- A server that closes at once: no number of reads is enough for the first poll. -/
theorem privPollRead_spins :
    ¬ ∀ es, position headEnd (bytesOf es) = none → ∀ rooms, AllReturn rooms .head es := by
  intro h_all
  obtain ⟨n, x, h_x, -⟩ := h_all [] rfl [16]
  have h_none (n : ℕ) : headCalls (readClosed 16) n [] = none := by
    induction n with
    | zero => rfl
    | succ n ih => exact ih
  exact absurd ((h_none n).symm.trans h_x) (by intro h_eq; cases h_eq)

end HttpObfs

end V2ray
