import Mathlib.Algebra.Order.Group.Nat
import V2rayRust.Lib.ReadRun

/-!
# Streams that are read and written

A stream is one object for both directions, and whoever owns it polls it to read and to write in
any order. If a write leaves what a read depends on, and a read what a write depends on, then what
holds of each direction by itself holds of both in every order (`TwoWay.Works.run`).

A stream says what it does in one direction: `Ahead` is what a read depends on and what it will get,
`Owes` what a write depends on and what is still to be written. `Stepped` is what polls leave of
both, with an account of how many are needed yet; it holds of a read (`stepped_read`), of a write
(`stepped_write`), and of polls one after the other (`Stepped.trans`), so it holds of every run.
-/

namespace V2ray

/-- What a poll of a writer leaves: its answer, and what the stream below has taken. -/
structure SinkPoll (S : Type) where
  state : S
  events : List WriteEvent
  result : Poll (Except String ℕ)
  out : List UInt8

/-- The polls of a stream. -/
structure TwoWay (S : Type) where
  read : S → List ReadEvent → ℕ → Except Fault (ReadPoll S)
  write : S → List WriteEvent → List UInt8 → Except Fault (SinkPoll S)

/-- A read with so much room, or a write of the slice that is next. -/
inductive TwoWayOp
  | read (room : ℕ)
  | write
  deriving DecidableEq, Repr

def TwoWayOp.reads : TwoWayOp → ℕ
  | .read _ => 1
  | .write => 0

def TwoWayOp.writes : TwoWayOp → ℕ
  | .read _ => 0
  | .write => 1

/-- A stream, what will be answered below it, and what its owner has seen of both directions. -/
structure TwoWayRun (S : Type) where
  state : S
  reads : List ReadEvent
  writes : List WriteEvent
  got : List UInt8
  how : ReadEnd
  out : List UInt8
  returned : List (Except String ℕ)
  left : List (List UInt8)

namespace TwoWay

variable {S : Type} (P : TwoWay S)

/-- The owner does not read after the end or an error, and polls with a slice until it is ready. -/
def step (d : TwoWayRun S) : TwoWayOp → Except Fault (TwoWayRun S)
  | .read room =>
    if d.how = .more then do
      let x ← P.read d.state d.reads room
      let d := { d with state := x.state, reads := x.events }
      match x.result with
      | .pending => return d
      | .ready (.error message) =>
        return { d with got := d.got ++ x.put, how := .failed message }
      | .ready (.ok ()) =>
        if x.put = [] then return { d with how := .ended }
        else return { d with got := d.got ++ x.put }
    else .ok d
  | .write =>
    match d.left with
    | [] => .ok d
    | data :: slices => do
      let x ← P.write d.state d.writes data
      let d := { d with state := x.state, writes := x.events, out := d.out ++ x.out }
      match x.result with
      | .pending => return d
      | .ready r => return { d with returned := d.returned ++ [r], left := slices }

def run : List TwoWayOp → TwoWayRun S → Except Fault (TwoWayRun S)
  | [], d => .ok d
  | op :: ops, d => do run ops (← P.step d op)

/-- Nothing has been read or written yet. -/
def start (s : S) (slices : List (List UInt8)) (reads : List ReadEvent)
    (writes : List WriteEvent) : TwoWayRun S :=
  ⟨s, reads, writes, [], .more, [], [], slices⟩

/-! ### What each direction does by itself -/

variable (Ahead : S → List ReadEvent → List UInt8 → Prop)
  (Owes : S → List (List UInt8) → List UInt8 → Prop) (cost : S → ℕ) (taken : List UInt8 → ℕ)

/-- What a poll with a slice does on a stream that works; `cost` bounds the polls that are pending
although the stream below was not. -/
inductive Written (s : S) (ws : List WriteEvent) (data : List UInt8) (slices : List (List UInt8))
    (owed : List UInt8) (x : SinkPoll S) : Prop
  | ready {owed' : List UInt8} (result_eq : x.result = .ready (.ok (taken data)))
      (owed_eq : owed = x.out ++ owed') (owes : Owes x.state slices owed')
      (working : Working x.events)
      (spent : cost x.state + writePendings x.events ≤ cost s + writePendings ws)
      (accepts_le : accepts ws ≤ x.out.length + accepts x.events)
  | pending {owed' : List UInt8} (result_eq : x.result = .pending) (owed_eq : owed = x.out ++ owed')
      (owes : Owes x.state (data :: slices) owed') (not_out : owed' ≠ [])
      (working : Working x.events)
      (spent : cost x.state + writePendings x.events < cost s + writePendings ws ∨ x.events = [])
      (accepts_le : accepts ws ≤ x.out.length + accepts x.events)

/-- Both directions work, and neither touches what the other depends on. -/
structure Works : Prop where
  reads : Delivers P.read Ahead
  writes : ∀ {s : S} {ws : List WriteEvent} {data : List UInt8} {slices : List (List UInt8)}
    {owed : List UInt8}, Working ws → Owes s (data :: slices) owed →
      ∃ x, P.write s ws data = .ok x ∧ Written Owes cost taken s ws data slices owed x
  read_owes : ∀ {s : S} {es : List ReadEvent} {room : ℕ} {x : ReadPoll S}
    {slices : List (List UInt8)} {owed : List UInt8}, P.read s es room = .ok x →
      Owes s slices owed → Owes x.state slices owed ∧ cost x.state = cost s
  write_ahead : ∀ {s : S} {ws : List WriteEvent} {data : List UInt8} {x : SinkPoll S}
    {es : List ReadEvent} {rest : List UInt8}, P.write s ws data = .ok x →
      Ahead s es rest → Ahead x.state es rest

/-! ### Both of them -/

/-- `owed` is still to be written, and `rest` is still to be read. -/
structure Goes (d : TwoWayRun S) (owed rest : List UInt8) : Prop where
  owes : Owes d.state d.left owed
  working : Working d.writes
  ahead : d.how = .more → Ahead d.state d.reads rest
  ended : d.how = .ended → rest = []
  not_failed : ∀ message, d.how ≠ .failed message

/-- So many reads get all of `rest`. -/
def ReadsIn (n : ℕ) (d : TwoWayRun S) (rest : List UInt8) : Prop :=
  rest = [] ∨ pendings d.reads + rest.length ≤ n

/-- So many writes leave no slice, and the stream below takes enough. -/
def WritesIn (n : ℕ) (d : TwoWayRun S) (owed : List UInt8) : Prop :=
  d.left = [] ∨
    (cost d.state + writePendings d.writes + d.left.length ≤ n ∧ owed.length ≤ accepts d.writes)

/-- What polls leave: `reads` to read, and `writes` to write. -/
structure Stepped (reads writes : ℕ) (d : TwoWayRun S) (owed rest : List UInt8)
    (d' : TwoWayRun S) (owed' rest' : List UInt8) : Prop where
  goes : Goes Ahead Owes d' owed' rest'
  out_eq : d'.out ++ owed' = d.out ++ owed
  got_eq : d'.got ++ rest' = d.got ++ rest
  returned_eq : ∃ done, d.left = done ++ d'.left ∧
    d'.returned = d.returned ++ done.map fun data => .ok (taken data)
  accepts_le : d.out.length + accepts d.writes ≤ d'.out.length + accepts d'.writes
  reads_in : ∀ n, ReadsIn (n + reads) d rest → ReadsIn n d' rest'
  writes_in : ∀ n, WritesIn cost (n + writes) d owed → WritesIn cost n d' owed'

variable {P Ahead Owes cost taken} {d d' : TwoWayRun S} {owed rest : List UInt8}

/-- No slice is done. -/
theorem none_done (d : TwoWayRun S) (taken : List UInt8 → ℕ) :
    ∃ done, d.left = done ++ d.left ∧
      d.returned = d.returned ++ done.map fun data => .ok (taken data) :=
  ⟨[], rfl, (List.append_nil _).symm⟩

/-- Nothing happens. -/
theorem Stepped.refl (h : Goes Ahead Owes d owed rest) :
    Stepped Ahead Owes cost taken 0 0 d owed rest d owed rest :=
  ⟨h, rfl, rfl, none_done d taken, Nat.le_refl _, fun _ h => h, fun _ h => h⟩

/-- Polls after polls. -/
theorem Stepped.trans {d'' : TwoWayRun S} {owed' rest' owed'' rest'' : List UInt8}
    {r w r' w' : ℕ} (h : Stepped Ahead Owes cost taken r w d owed rest d' owed' rest')
    (h' : Stepped Ahead Owes cost taken r' w' d' owed' rest' d'' owed'' rest'') :
    Stepped Ahead Owes cost taken (r' + r) (w' + w) d owed rest d'' owed'' rest'' where
  goes := h'.goes
  out_eq := h'.out_eq.trans h.out_eq
  got_eq := h'.got_eq.trans h.got_eq
  returned_eq := by
    obtain ⟨done, h_left, h_returned⟩ := h.returned_eq
    obtain ⟨done', h_left', h_returned'⟩ := h'.returned_eq
    refine ⟨done ++ done', ?_, ?_⟩
    · rw [h_left, h_left', List.append_assoc]
    · rw [h_returned', h_returned, List.map_append, List.append_assoc]
  accepts_le := Nat.le_trans h.accepts_le h'.accepts_le
  -- polls of both parts count for both
  reads_in n h_n := by
    apply h'.reads_in n
    apply h.reads_in (n + r')
    rwa [Nat.add_assoc]
  writes_in n h_n := by
    apply h'.writes_in n
    apply h.writes_in (n + w')
    rwa [Nat.add_assoc]

/-- A poll to read. -/
theorem stepped_read (h_works : P.Works Ahead Owes cost taken) (h : Goes Ahead Owes d owed rest)
    {room : ℕ} (h_room : 0 < room) :
    ∃ d' rest', P.step d (.read room) = .ok d' ∧
      Stepped Ahead Owes cost taken 1 0 d owed rest d' owed rest' := by
  unfold step
  dsimp only
  by_cases h_more : d.how = .more
  · rw [if_pos h_more]
    obtain ⟨x, h_read, h_x⟩ := h_works.reads d.state d.reads rest room (h.ahead h_more) h_room
    obtain ⟨h_owes, h_cost⟩ := h_works.read_owes h_read h.owes
    rw [h_read, ok_bind]
    -- the other direction is as it was
    have h_writes {d' : TwoWayRun S} (h_state : d'.state = x.state) (h_ws : d'.writes = d.writes)
        (h_left : d'.left = d.left) (n : ℕ) (h_n : WritesIn cost (n + 0) d owed) :
        WritesIn cost n d' owed := by
      unfold WritesIn at h_n ⊢
      rwa [h_state, h_ws, h_left, h_cost]
    cases h_x with
    -- bytes have come: one read less is needed for them, and no byte is there twice
    | @put rest' result_eq ne_nil rest_eq ahead pendings_le =>
      rw [result_eq]
      dsimp only
      rw [if_neg ne_nil]
      refine ⟨_, rest', rfl, ⟨h_owes, h.working, fun _ => ahead, ?_, h.not_failed⟩, rfl, ?_,
        none_done d taken, Nat.le_refl _, ?_, h_writes rfl rfl rfl⟩
      · intro h_ended
        exact absurd (h_more.symm.trans h_ended) (by decide)
      · rw [rest_eq]
        exact List.append_assoc _ _ _
      · intro n h_n
        have h_put := List.length_pos_iff.mpr ne_nil
        have h_len := congrArg List.length rest_eq
        rw [List.length_append] at h_len
        rcases h_n with h_nil | h_le
        · rw [h_nil, List.length_nil] at h_len
          omega
        · refine .inr ?_
          show pendings x.events + rest'.length ≤ n
          omega
    -- nothing has come: an answer that is pending is used up
    | pending result_eq ahead spent =>
      rw [result_eq]
      refine ⟨_, rest, rfl, ⟨h_owes, h.working, fun _ => ahead, ?_, h.not_failed⟩, rfl, rfl,
        none_done d taken, Nat.le_refl _, ?_, h_writes rfl rfl rfl⟩
      · intro h_ended
        exact absurd (h_more.symm.trans h_ended) (by decide)
      · intro n h_n
        rcases spent with h_spent | h_nil
        · refine h_n.imp_right fun h_le => ?_
          show pendings x.events + rest.length ≤ n
          omega
        · exact .inl h_nil
    -- the stream has ended, and nothing was left of it
    | ended result_eq put_eq nothing =>
      rw [result_eq]
      dsimp only
      rw [if_pos put_eq]
      refine ⟨_, rest, rfl, ⟨h_owes, h.working, ?_, fun _ => nothing, ?_⟩, rfl, rfl,
        none_done d taken, Nat.le_refl _, fun n _ => .inl nothing, h_writes rfl rfl rfl⟩
      · exact fun h_more => ReadEnd.noConfusion h_more
      · exact fun message h_failed => ReadEnd.noConfusion h_failed
  · rw [if_neg h_more]
    -- the owner has seen the end
    have h_ended : d.how = .ended := by
      cases h_how : d.how with
      | more => exact absurd h_how h_more
      | ended => rfl
      | failed message => exact absurd h_how (h.not_failed message)
    refine ⟨d, rest, rfl, h, rfl, rfl, none_done d taken, Nat.le_refl _,
      fun n _ => .inl (h.ended h_ended), fun n h_n => h_n⟩

/-- A poll to write. -/
theorem stepped_write (h_works : P.Works Ahead Owes cost taken) (h : Goes Ahead Owes d owed rest) :
    ∃ d' owed', P.step d .write = .ok d' ∧
      Stepped Ahead Owes cost taken 0 1 d owed rest d' owed' rest := by
  unfold step
  dsimp only
  have h_goes := h.owes
  generalize h_left : d.left = left at h_goes ⊢
  cases left with
  -- every slice is written, so there is no poll
  | nil =>
    exact ⟨d, owed, rfl, h, rfl, rfl, none_done d taken, Nat.le_refl _, fun n h_n => h_n,
      fun n _ => .inl h_left⟩
  | cons data slices =>
    obtain ⟨x, h_write, h_x⟩ := h_works.writes h.working h_goes
    -- the reads do not notice
    have h_ahead (h_more : d.how = .more) : Ahead x.state d.reads rest :=
      h_works.write_ahead h_write (h.ahead h_more)
    dsimp only
    rw [h_write, ok_bind]
    cases h_x with
    -- the slice is done: what it was owed is out, and one write less is needed
    | @ready owed' result_eq owed_eq owes working spent accepts_le =>
      rw [result_eq]
      refine ⟨_, owed', rfl, ⟨owes, working, h_ahead, h.ended, h.not_failed⟩, ?_, rfl,
        ⟨[data], h_left, rfl⟩, ?_, fun n h_n => h_n, ?_⟩
      · rw [owed_eq]
        exact List.append_assoc _ _ _
      · show d.out.length + accepts d.writes ≤ (d.out ++ x.out).length + accepts x.events
        rw [List.length_append]
        omega
      · intro n h_n
        unfold WritesIn at h_n ⊢
        rw [h_left, owed_eq, List.length_append, List.length_cons] at h_n
        rcases h_n with h_nil | ⟨h_le, h_accepts⟩
        · exact absurd h_nil (List.cons_ne_nil _ _)
        · refine .inr ⟨?_, ?_⟩
          · show cost x.state + writePendings x.events + slices.length ≤ n
            omega
          · show owed'.length ≤ accepts x.events
            omega
    -- the slice stays, and there is still something owed
    | @pending owed' result_eq owed_eq owes not_out working spent accepts_le =>
      rw [result_eq]
      refine ⟨_, owed', rfl, ⟨owes, working, h_ahead, h.ended, h.not_failed⟩, ?_, rfl,
        ⟨[], h_left, (List.append_nil _).symm⟩, ?_, fun n h_n => h_n, ?_⟩
      · rw [owed_eq]
        exact List.append_assoc _ _ _
      · show d.out.length + accepts d.writes ≤ (d.out ++ x.out).length + accepts x.events
        rw [List.length_append]
        omega
      · intro n h_n
        unfold WritesIn at h_n ⊢
        rw [owed_eq, List.length_append] at h_n
        rcases h_n with h_nil | ⟨h_le, h_accepts⟩
        · exact absurd (h_left.symm.trans h_nil) (List.cons_ne_nil _ _)
        refine .inr ?_
        rcases spent with h_spent | h_over
        · refine ⟨?_, ?_⟩
          · rw [h_left] at h_le
            show cost x.state + writePendings x.events + (data :: slices).length ≤ n
            omega
          · show owed'.length ≤ accepts x.events
            omega
        · -- the stream below has taken as many bytes as are owed
          rw [h_over] at accepts_le
          have h_zero : accepts [] = 0 := rfl
          have h_owed' := List.length_pos_iff.mpr not_out
          omega

/-- Every read of these polls has room. -/
def Roomy (ops : List TwoWayOp) : Prop := ∀ room, .read room ∈ ops → 0 < room

def readsOf (ops : List TwoWayOp) : ℕ := ops.countP (· ≠ .write)

def writesOf (ops : List TwoWayOp) : ℕ := ops.countP (· = .write)

theorem readsOf_cons (op : TwoWayOp) (ops : List TwoWayOp) :
    readsOf (op :: ops) = readsOf ops + op.reads := by
  cases op with
  | read room => exact List.countP_cons_of_pos (by simp)
  | write => exact List.countP_cons_of_neg (by simp)

theorem writesOf_cons (op : TwoWayOp) (ops : List TwoWayOp) :
    writesOf (op :: ops) = writesOf ops + op.writes := by
  cases op with
  | read room => exact List.countP_cons_of_neg (by simp)
  | write => exact List.countP_cons_of_pos (by simp)

/-- **Polls in any order.** -/
theorem stepped_run (h_works : P.Works Ahead Owes cost taken) {ops : List TwoWayOp}
    (h : Goes Ahead Owes d owed rest) (h_ops : Roomy ops) :
    ∃ d' owed' rest', P.run ops d = .ok d' ∧
      Stepped Ahead Owes cost taken (readsOf ops) (writesOf ops) d owed rest d' owed' rest' := by
  induction ops generalizing d owed rest with
  -- no poll
  | nil => exact ⟨d, owed, rest, rfl, .refl h⟩
  | cons op ops ih =>
    -- which direction it is decides what is counted
    have h_step : ∃ d' owed' rest', P.step d op = .ok d' ∧
        Stepped Ahead Owes cost taken op.reads op.writes d owed rest d' owed' rest' := by
      cases op with
      | read room =>
        obtain ⟨d', rest', h_d', h_stepped⟩ :=
          stepped_read h_works h (h_ops room List.mem_cons_self)
        exact ⟨d', owed, rest', h_d', h_stepped⟩
      | write =>
        obtain ⟨d', owed', h_d', h_stepped⟩ := stepped_write h_works h
        exact ⟨d', owed', rest, h_d', h_stepped⟩
    obtain ⟨d', owed', rest', h_d', h_stepped⟩ := h_step
    obtain ⟨d'', owed'', rest'', h_run, h_later⟩ :=
      ih h_stepped.goes fun room h_room => h_ops room (List.mem_cons_of_mem _ h_room)
    refine ⟨d'', owed'', rest'', ?_, ?_⟩
    · rw [run, h_d', ok_bind, h_run]
    · have h_both := h_stepped.trans h_later
      rwa [← readsOf_cons, ← writesOf_cons] at h_both

/-! ### Writes only -/

/-- Writes leave what has been read, and what will be. -/
theorem run_writes_keeps {k : ℕ} (h : P.run (List.replicate k .write) d = .ok d') :
    d'.got = d.got ∧ d'.how = d.how ∧ d'.reads = d.reads := by
  induction k generalizing d with
  | zero =>
    cases h
    -- no write
    exact ⟨rfl, rfl, rfl⟩
  | succ k ih =>
    rw [List.replicate_succ, run] at h
    obtain ⟨d₁, h_step, h⟩ := bind_eq_ok.mp h
    -- a write touches the state, what is out and what has been returned
    have h_keeps : d₁.got = d.got ∧ d₁.how = d.how ∧ d₁.reads = d.reads := by
      unfold step at h_step
      dsimp only at h_step
      split at h_step
      · cases h_step
        exact ⟨rfl, rfl, rfl⟩
      · obtain ⟨x, -, h_step⟩ := bind_eq_ok.mp h_step
        split at h_step <;> cases h_step <;> exact ⟨rfl, rfl, rfl⟩
    obtain ⟨h_got, h_how, h_reads⟩ := ih h
    exact ⟨h_got.trans h_keeps.1, h_how.trans h_keeps.2.1, h_reads.trans h_keeps.2.2⟩

/-- Nothing is written when no slice is left. -/
theorem run_writes_nil (k : ℕ) (h_left : d.left = []) :
    P.run (List.replicate k .write) d = .ok d := by
  induction k with
  | zero => rfl
  | succ k ih =>
    -- `step` has no slice to offer
    have h_step : P.step d .write = .ok d := by
      unfold step
      dsimp only
      rw [h_left]
    rw [List.replicate_succ, run, h_step, ok_bind, ih]

/-- Writes of one slice are writes of it before others. -/
theorem run_writes_append {data : List UInt8} (slices : List (List UInt8)) {k : ℕ}
    (h_left : d.left = [data]) (h : P.run (List.replicate k .write) d = .ok d')
    (h_done : d'.left = []) :
    ∃ j, P.run (List.replicate j .write) { d with left := data :: slices } =
      .ok { d' with left := slices } := by
  induction k generalizing d with
  -- no write, so the slice would be left
  | zero =>
    cases h
    rw [h_left] at h_done
    cases h_done
  | succ k ih =>
    rw [List.replicate_succ, run] at h
    obtain ⟨d₁, h_step, h⟩ := bind_eq_ok.mp h
    unfold step at h_step
    dsimp only at h_step
    rw [h_left] at h_step
    obtain ⟨x, h_write, h_step⟩ := bind_eq_ok.mp h_step
    -- the slices after it play no part in a poll
    have h_other : P.step { d with left := data :: slices } .write = (do
        let d₂ := { d with left := data :: slices, state := x.state, writes := x.events,
                           out := d.out ++ x.out }
        match x.result with
        | .pending => return d₂
        | .ready r => return { d₂ with returned := d.returned ++ [r], left := slices }) := by
      unfold step
      dsimp only
      rw [h_write]
      rfl
    -- the slice is offered again
    cases h_result : x.result with
    | pending =>
      rw [h_result] at h_step h_other
      cases h_step
      obtain ⟨j, h_j⟩ := ih rfl h
      refine ⟨j + 1, ?_⟩
      rw [List.replicate_succ, run, h_other]
      exact h_j
    -- the slice is out, and what is left of the writes has nothing to do
    | ready r =>
      rw [h_result] at h_step h_other
      cases h_step
      rw [run_writes_nil k rfl] at h
      cases h
      refine ⟨1, ?_⟩
      rw [List.replicate_one, run, h_other]
      rfl

/-- What writes of a first slice leave to the slices after it, of which this is owed. -/
structure WroteFirst (Ahead : S → List ReadEvent → List UInt8 → Prop)
    (Owes : S → List (List UInt8) → List UInt8 → Prop) (d d' : TwoWayRun S)
    (slices : List (List UInt8)) (owed owed' rest : List UInt8) : Prop where
  how_eq : d'.how = d.how
  got_eq : d'.got = d.got
  reads_eq : d'.reads = d.reads
  working : Working d'.writes
  ahead : Ahead d'.state d'.reads rest
  owes : Owes d'.state slices owed'
  out_eq : d'.out ++ owed' = d.out ++ owed
  accepts_le : d.out.length + accepts d.writes ≤ d'.out.length + accepts d'.writes

/-- **A first slice**: what will be owed of the slices after it is what is owed of all of them, less
what is out. -/
theorem Works.wroteFirst (h_works : P.Works Ahead Owes cost taken) {data : List UInt8}
    (h_d : d.left = [data]) (h_more : d.how = .more) {k : ℕ}
    (h_run : P.run (List.replicate k .write) d = .ok d') (h_left : d'.left = [])
    (h_working : Working d.writes) (h_ahead : Ahead d.state d.reads rest)
    {slices : List (List UInt8)} (h_owes : Owes d.state (data :: slices) owed) :
    ∃ owed', WroteFirst Ahead Owes d d' slices owed owed' rest := by
  obtain ⟨j, h_j⟩ := run_writes_append slices h_d h_run h_left
  obtain ⟨h_got, h_how, h_reads⟩ := run_writes_keeps h_run
  -- the reader has not seen the end, so only `Ahead` is at stake
  have h_goes : Goes Ahead Owes { d with left := data :: slices } owed rest := by
    refine ⟨h_owes, h_working, fun _ => h_ahead, ?_, ?_⟩
    · exact fun h_ended => ReadEnd.noConfusion (h_more.symm.trans h_ended)
    · exact fun message h_failed => ReadEnd.noConfusion (h_more.symm.trans h_failed)
  have h_ops : Roomy (List.replicate j .write) := by
    intro room h_room
    cases List.eq_of_mem_replicate h_room
  obtain ⟨d₁, owed', rest', h_run', h_d₁⟩ := stepped_run h_works h_goes h_ops
  cases h_j.symm.trans h_run'
  -- nothing is read meanwhile
  have h_rest : rest' = rest := by
    have h_both := h_d₁.got_eq
    change d'.got ++ rest' = d.got ++ rest at h_both
    rw [h_got] at h_both
    exact List.append_cancel_left h_both
  have h_ahead' := h_d₁.goes.ahead (h_how.trans h_more)
  rw [h_rest] at h_ahead'
  exact ⟨owed', h_how, h_got, h_reads, h_d₁.goes.working, h_ahead', h_d₁.goes.owes, h_d₁.out_eq,
    h_d₁.accepts_le⟩

/-- Enough writes of a slice write it. -/
theorem Works.exists_writes (h_works : P.Works Ahead Owes cost taken) {data : List UInt8}
    (h_d : d.left = [data]) (h_more : d.how = .more) (h_working : Working d.writes)
    (h_ahead : Ahead d.state d.reads rest) (h_owes : Owes d.state [data] owed)
    (h_accepts : owed.length ≤ accepts d.writes) :
    ∃ k d', P.run (List.replicate k .write) d = .ok d' ∧ d'.left = [] := by
  have h_goes : Goes Ahead Owes d owed rest := by
    refine ⟨h_d ▸ h_owes, h_working, fun _ => h_ahead, ?_, ?_⟩
    · exact fun h_ended => ReadEnd.noConfusion (h_more.symm.trans h_ended)
    · exact fun message h_failed => ReadEnd.noConfusion (h_more.symm.trans h_failed)
  -- each poll that is pending is paid for by `cost`, by an answer, or by the slice
  let k := cost d.state + writePendings d.writes + d.left.length
  have h_ops : Roomy (List.replicate k .write) := by
    intro room h_room
    cases List.eq_of_mem_replicate h_room
  have h_count : writesOf (List.replicate k .write) = k := by
    rw [writesOf, List.countP_replicate]
    rfl
  obtain ⟨d', owed', rest', h_run, h_d'⟩ := stepped_run h_works h_goes h_ops
  refine ⟨k, d', h_run, ?_⟩
  have h_in := h_d'.writes_in 0 (.inr ⟨by rw [h_count, Nat.zero_add], h_accepts⟩)
  exact h_in.elim id fun ⟨h_le, _⟩ => List.length_eq_zero_iff.mp (by omega)

/-- **Both directions in any order**, from the start: what is read is a prefix of what was ahead, no
read fails, and the end is seen only after all of it; what is written is a prefix of what is owed,
and every slice that is done has reported what was taken of it. Enough polls of either kind read,
or write, all of it. -/
theorem Works.run (h_works : P.Works Ahead Owes cost taken) {ops : List TwoWayOp} {s : S}
    {slices : List (List UInt8)} {es : List ReadEvent} {ws : List WriteEvent}
    {wire plain : List UInt8} (h_owes : Owes s slices wire) (h_ahead : Ahead s es plain)
    (h_working : Working ws) (h_ops : Roomy ops) :
    ∃ d owed rest, P.run ops (start s slices es ws) = .ok d ∧ Goes Ahead Owes d owed rest ∧
      wire = d.out ++ owed ∧ plain = d.got ++ rest ∧
      (∃ done, slices = done ++ d.left ∧ d.returned = done.map fun data => .ok (taken data)) ∧
      (pendings es + plain.length ≤ readsOf ops → rest = []) ∧
      (cost s + writePendings ws + slices.length ≤ writesOf ops → wire.length ≤ accepts ws →
        d.left = []) := by
  have h_goes : Goes Ahead Owes (start s slices es ws) wire plain :=
    ⟨h_owes, h_working, fun _ => h_ahead, fun h => ReadEnd.noConfusion h,
      fun _ h => ReadEnd.noConfusion h⟩
  obtain ⟨d, owed, rest, h_run, h_d⟩ := stepped_run h_works h_goes h_ops
  refine ⟨d, owed, rest, h_run, h_d.goes, h_d.out_eq.symm, h_d.got_eq.symm, h_d.returned_eq, ?_, ?_⟩
  · intro h_reads
    have h_in := h_d.reads_in 0 (.inr (by rwa [Nat.zero_add]))
    exact h_in.elim id fun h_le => List.length_eq_zero_iff.mp (by omega)
  · intro h_writes h_accepts
    have h_in := h_d.writes_in 0 (.inr ⟨by rwa [Nat.zero_add], h_accepts⟩)
    exact h_in.elim id fun ⟨h_le, _⟩ => List.length_eq_zero_iff.mp (by omega)

end TwoWay

end V2ray
