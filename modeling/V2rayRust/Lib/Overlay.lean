import V2rayRust.Lib.TwoWay

/-!
# Streams over streams

The code of a stream is written over any other, and chains of streams are built of it. What such
code does between its calls of the stream below is what its polls do with single answers: with no
answer a poll goes up to the first call, and with one up to the next. `Overlay.streamOver` puts the
code over a stream. If the code makes of every byte that comes, and of every part of a chunk that is
taken, what it should (`Overlay.Sits`), then it works over every stream that works
(`Overlay.Sits.works`).
-/

namespace V2ray

/-- A stream whose code is written over any other. -/
structure Overlay (S : Type) extends TwoWay S where
  /-- the room of the read that a suspended read makes below -/
  wants : S → ℕ
  /-- the slice that a suspended write offers below -/
  offers : S → List UInt8

def ReadEvent.ofAnswer (put : List UInt8) : Except String Unit → ReadEvent
  | .ok () => .data put
  | .error message => .err message

def WriteEvent.ofAnswer : Except String ℕ → WriteEvent
  | .ok n => .accept n
  | .error message => .err message

namespace Overlay

variable {S T : Type} (L : Overlay S) (Q : TwoWay T)

/-- A read, with so many calls of the stream below. -/
def readOver : ℕ → S → T → List ReadEvent → ℕ → Except Fault (ReadPoll (S × T))
  | 0, _, _, _, _ => .error .diverge
  | n + 1, s, t, es, room => do
    let x ← L.read s [] room
    match x.result with
    | .ready r => return ⟨(x.state, t), es, .ready r, x.put⟩
    | .pending =>
      let y ← Q.read t es (L.wants x.state)
      match y.result with
      | .pending => return ⟨(x.state, y.state), y.events, .pending, []⟩
      | .ready answer =>
        let z ← L.read x.state [.ofAnswer y.put answer] room
        match z.result with
        | .ready r => return ⟨(z.state, y.state), y.events, .ready r, z.put⟩
        | .pending => readOver n z.state y.state y.events room

/-- A write, with so many calls of the stream below. -/
def writeOver : ℕ → S → T → List WriteEvent → List UInt8 → Except Fault (SinkPoll (S × T))
  | 0, _, _, _, _ => .error .diverge
  | n + 1, s, t, ws, data => do
    let x ← L.write s [] data
    match x.result with
    | .ready r => return ⟨(x.state, t), ws, .ready r, []⟩
    | .pending =>
      let y ← Q.write t ws (L.offers x.state)
      match y.result with
      | .pending => return ⟨(x.state, y.state), y.events, .pending, y.out⟩
      | .ready answer =>
        let z ← L.write x.state [.ofAnswer answer] data
        match z.result with
        | .ready r => return ⟨(z.state, y.state), y.events, .ready r, y.out⟩
        | .pending =>
          let w ← writeOver n z.state y.state y.events data
          return { w with out := y.out ++ w.out }

/-- The code over a stream; a poll makes fewer than `fuel` calls of it. -/
def streamOver (fuel : ℕ) : TwoWay (S × T) where
  read x es room := L.readOver Q fuel x.1 x.2 es room
  write x ws data := L.writeOver Q fuel x.1 x.2 ws data

/-! ### What the code does with its answers -/

variable (Coming : S → List UInt8 → List UInt8 → Prop) (Waits : S → Prop)
  (Owes : S → List (List UInt8) → List (List UInt8) → Prop) (taken : List UInt8 → ℕ)

/-- What a read does when `wire` is still to come from below and `rest` is in it and in what came:
it puts some of it, or waits for more, or reports the end. -/
inductive Heard (wire rest : List UInt8) (x : ReadPoll S) : Prop
  | put {rest' : List UInt8} (result_eq : x.result = .ready (.ok ())) (ne_nil : x.put ≠ [])
      (rest_eq : rest = x.put ++ rest') (coming : Coming x.state wire rest')
  | pending (result_eq : x.result = .pending) (coming : Coming x.state wire rest)
      (waits : Waits x.state) (dry : wire = [] → rest = [])
  | ended (result_eq : x.result = .ready (.ok ())) (put_eq : x.put = []) (nothing : rest = [])

/-- What a write does with a slice of which `chunk` is left: it offers that, and is ready when all
of it is taken. -/
structure Offer (s : S) (data : List UInt8) (slices : List (List UInt8)) (chunk : List UInt8)
    (chunks : List (List UInt8)) (x : SinkPoll S) : Prop where
  write_eq : L.write s [] data = .ok x
  result_eq : x.result = .pending
  offers_eq : L.offers x.state = chunk
  owes : Owes x.state (data :: slices) (chunk :: chunks)
  part : ∀ n, 0 < n → n < chunk.length → ∃ z, L.write x.state [.accept n] data = .ok z ∧
    z.result = .pending ∧ Owes z.state (data :: slices) (chunk.drop n :: chunks)
  whole : ∃ z, L.write x.state [.accept chunk.length] data = .ok z ∧
    z.result = .ready (.ok (taken data)) ∧ Owes z.state slices chunks

/-- The code reads what comes and writes a chunk for each slice, and neither direction touches what
the other depends on. -/
structure Sits : Prop where
  wants_pos : ∀ {s : S}, Waits s → 0 < L.wants s
  read_nil : ∀ {s : S} {wire rest : List UInt8} {room : ℕ}, Coming s wire rest → 0 < room →
    ∃ x, L.read s [] room = .ok x ∧ Heard Coming Waits wire rest x
  read_data : ∀ {s : S} {bs wire rest : List UInt8} {room : ℕ}, Waits s →
    Coming s (bs ++ wire) rest → bs ≠ [] → bs.length ≤ L.wants s → 0 < room →
    ∃ x, L.read s [.data bs] room = .ok x ∧ Heard Coming Waits wire rest x
  read_end : ∀ {s : S} {rest : List UInt8} {room : ℕ}, Waits s → Coming s [] rest → rest = [] →
    ∃ x, L.read s [.data []] room = .ok x ∧ x.result = .ready (.ok ()) ∧ x.put = []
  write : ∀ {s : S} {data : List UInt8} {slices chunks' : List (List UInt8)},
    Owes s (data :: slices) chunks' → ∃ chunk chunks x, chunks' = chunk :: chunks ∧ chunk ≠ [] ∧
      L.Offer Owes taken s data slices chunk chunks x
  read_owes : ∀ {s : S} {es : List ReadEvent} {room : ℕ} {x : ReadPoll S}
    {slices chunks : List (List UInt8)}, L.read s es room = .ok x → Owes s slices chunks →
      Owes x.state slices chunks
  write_coming : ∀ {s : S} {ws : List WriteEvent} {data : List UInt8} {x : SinkPoll S}
    {wire rest : List UInt8}, L.write s ws data = .ok x → Coming s wire rest →
      Coming x.state wire rest

end Overlay

/-- The same poll, with an answer that is pending and others after it. -/
def ReadPoll.later {S : Type} (es : List ReadEvent) (x : ReadPoll S) : ReadPoll S :=
  { x with events := match x.result with
    | .pending => es
    | .ready _ => .pending :: es }

/-- A reader that delivers, and that a pending answer suspends where no answer does, reads what
comes. -/
theorem Overlay.heard_of_later {S : Type}
    {poll : S → List ReadEvent → ℕ → Except Fault (ReadPoll S)}
    {AheadP : S → List ReadEvent → List UInt8 → Prop} {Coming : S → List UInt8 → List UInt8 → Prop}
    {Waits : S → Prop} (h : Delivers poll AheadP)
    (h_iff : ∀ s es rest, AheadP s es rest ↔ Clean es ∧ Coming s (bytesOf es) rest) {s : S}
    {wire rest : List UInt8} {room : ℕ}
    (h_later : ∀ es, poll s (.pending :: es) room = (poll s [] room).map (ReadPoll.later es))
    (h_waits : ∀ x, poll s [] room = .ok x → x.result = .pending → Waits x.state)
    (h_coming : Coming s wire rest) (h_room : 0 < room) :
    ∃ x, poll s [] room = .ok x ∧ Overlay.Heard Coming Waits wire rest x := by
  have h_ahead : AheadP s (.pending :: oneByOne wire) rest := by
    refine (h_iff _ _ _).mpr ⟨.pending (clean_oneByOne wire), ?_⟩
    rwa [bytesOf_cons, bytesOf_oneByOne]
  obtain ⟨y, h_y, h_delivery⟩ := h _ _ _ _ h_ahead h_room
  rw [h_later] at h_y
  cases h_poll : poll s [] room with
  | error f =>
    rw [h_poll] at h_y
    cases h_y
  | ok x =>
    rw [h_poll] at h_y
    cases h_y
    refine ⟨x, rfl, ?_⟩
    unfold ReadPoll.later at h_delivery
    cases h_delivery with
    | @put rest' result_eq ne_nil rest_eq ahead pendings_le =>
      change x.result = _ at result_eq
      refine .put result_eq ne_nil rest_eq ?_
      rw [result_eq] at ahead
      have h_coming' := ((h_iff _ _ _).mp ahead).2
      rwa [bytesOf_cons, bytesOf_oneByOne] at h_coming'
    | pending result_eq ahead spent =>
      change x.result = _ at result_eq
      rw [result_eq] at ahead
      have h_coming' := ((h_iff _ _ _).mp ahead).2
      rw [bytesOf_oneByOne] at h_coming'
      refine .pending result_eq h_coming' (h_waits x h_poll result_eq) ?_
      -- with nothing to come, there is no answer that could have been spent
      rintro rfl
      obtain ⟨z, h_z, h_dry⟩ := h _ _ _ _ ((h_iff _ [] _).mpr ⟨.nil, h_coming⟩) h_room
      obtain rfl : x = z := Except.ok.inj (h_poll.symm.trans h_z)
      cases h_dry with
      | put result_eq' => rw [result_eq] at result_eq'; cases result_eq'
      | pending result_eq' ahead' spent' =>
        exact spent'.resolve_left (Nat.not_lt_zero _)
      | ended result_eq' => rw [result_eq] at result_eq'; cases result_eq'
    | ended result_eq put_eq nothing => exact .ended result_eq put_eq nothing

/-- A read puts no more than there is room for. -/
def TwoWay.Fits {S : Type} (P : TwoWay S) : Prop :=
  ∀ {s : S} {es : List ReadEvent} {room : ℕ} {x : ReadPoll S}, P.read s es room = .ok x →
    x.put.length ≤ room

/-- A slice is taken, or a part of it. -/
def TakesPart (taken : List UInt8 → ℕ) : Prop :=
  ∀ data, data ≠ [] → 0 < taken data ∧ taken data ≤ data.length

/-- The slices that a chunk is offered in, when so much of each is taken. -/
def cut (taken : List UInt8 → ℕ) (chunk : List UInt8) : List (List UInt8) :=
  if _h : chunk = [] ∨ taken chunk = 0 then []
  else chunk :: cut taken (chunk.drop (taken chunk))
termination_by chunk.length
decreasing_by
  have h_chunk := List.length_pos_iff.mpr (not_or.mp _h).1
  have h_taken := Nat.pos_of_ne_zero (not_or.mp _h).2
  rw [List.length_drop]
  omega

section Cut

variable {taken : List UInt8 → ℕ}

@[simp] theorem cut_nil : cut taken [] = [] := by
  rw [cut]
  exact dif_pos (.inl rfl)

theorem cut_of_ne_nil (h : TakesPart taken) {chunk : List UInt8} (h_chunk : chunk ≠ []) :
    cut taken chunk = chunk :: cut taken (chunk.drop (taken chunk)) := by
  rw [cut]
  exact dif_neg (not_or.mpr ⟨h_chunk, Nat.pos_iff_ne_zero.mp (h chunk h_chunk).1⟩)

/-- Nothing is lost between the slices. -/
theorem flatten_cut (h : TakesPart taken) (chunk : List UInt8) :
    ((cut taken chunk).map fun data => data.take (taken data)).flatten = chunk := by
  induction h_len : chunk.length using Nat.strong_induction_on generalizing chunk with
  | _ n ih =>
    by_cases h_chunk : chunk = []
    · rw [h_chunk, cut_nil]
      rfl
    · obtain ⟨h_pos, h_le⟩ := h chunk h_chunk
      rw [cut_of_ne_nil h h_chunk, List.map_cons, List.flatten_cons,
        ih (chunk.drop (taken chunk)).length (by rw [List.length_drop]; omega) _ rfl,
        List.take_append_drop]

/-- What is taken of the pieces is what the chunks say. -/
theorem flatten_cuts (h : TakesPart taken) (chunks : List (List UInt8)) :
    ((chunks.flatMap (cut taken)).map fun data => data.take (taken data)).flatten =
      chunks.flatten := by
  induction chunks with
  | nil => rfl
  | cons chunk chunks ih =>
    rw [List.flatMap_cons, List.map_append, List.flatten_append, flatten_cut h, ih,
      List.flatten_cons]

end Cut

namespace Overlay

variable {S T : Type} {L : Overlay S} {Q : TwoWay T} {Coming : S → List UInt8 → List UInt8 → Prop}
  {Waits : S → Prop} {Owes : S → List (List UInt8) → List (List UInt8) → Prop}
  {taken : List UInt8 → ℕ} {AheadQ : T → List ReadEvent → List UInt8 → Prop}
  {OwesQ : T → List (List UInt8) → List UInt8 → Prop} {costQ : T → ℕ}
  {takenQ : List UInt8 → ℕ} {fuel : ℕ}

/-- What is still to come of the stream below is still to be read. -/
def Ahead (Coming : S → List UInt8 → List UInt8 → Prop)
    (AheadQ : T → List ReadEvent → List UInt8 → Prop) (fuel : ℕ) (x : S × T)
    (es : List ReadEvent) (rest : List UInt8) : Prop :=
  ∃ wire, AheadQ x.2 es wire ∧ Coming x.1 wire rest ∧ wire.length < fuel

/-- The stream below owes the chunks, in the slices that it is offered. -/
def OwesOver (Owes : S → List (List UInt8) → List (List UInt8) → Prop)
    (OwesQ : T → List (List UInt8) → List UInt8 → Prop) (takenQ : List UInt8 → ℕ) (fuel : ℕ)
    (x : S × T) (slices : List (List UInt8)) (owed : List UInt8) : Prop :=
  ∃ chunks, Owes x.1 slices chunks ∧ OwesQ x.2 (chunks.flatMap (cut takenQ)) owed ∧
    ∀ chunk ∈ chunks, chunk.length < fuel

/-! ### Reading -/

/-- **A read over a stream that works.** -/
theorem delivery_readOver (h : L.Sits Coming Waits Owes taken) (h_fits : Q.Fits)
    (h_Q : Delivers Q.read AheadQ) {n : ℕ} {s : S} {t : T} {es : List ReadEvent}
    {wire rest : List UInt8} {room : ℕ} (h_ahead : AheadQ t es wire) (h_coming : Coming s wire rest)
    (h_n : wire.length < n) (h_fuel : wire.length < fuel) (h_room : 0 < room) :
    ∃ x, L.readOver Q n s t es room = .ok x ∧ Delivery (Ahead Coming AheadQ fuel) es rest x := by
  -- each round takes something of `wire`
  induction n generalizing s t es wire with
  | zero => exact absurd h_n (Nat.not_lt_zero _)
  | succ n ih =>
    obtain ⟨x, h_x, h_heard⟩ := h.read_nil h_coming h_room
    rw [readOver, h_x, ok_bind]
    cases h_heard with
    | @put rest' result_eq ne_nil rest_eq coming =>
      rw [result_eq]
      exact ⟨_, rfl, .put rfl ne_nil rest_eq ⟨wire, h_ahead, coming, h_fuel⟩ (Nat.le_refl _)⟩
    | ended result_eq put_eq nothing =>
      rw [result_eq]
      exact ⟨_, rfl, .ended rfl put_eq nothing⟩
    | pending result_eq coming waits dry =>
      rw [result_eq]
      dsimp only
      obtain ⟨y, h_y, h_below⟩ := h_Q t es wire (L.wants x.state) h_ahead (h.wants_pos waits)
      rw [h_y, ok_bind]
      cases h_below with
      | pending below_eq ahead spent =>
        rw [below_eq]
        exact ⟨_, rfl, .pending rfl ⟨wire, ahead, coming, h_fuel⟩ (spent.imp_right dry)⟩
      | ended below_eq put_eq nothing =>
        rw [below_eq, put_eq]
        obtain ⟨z, h_z, h_ready, h_put⟩ : ∃ z, L.read x.state [.data []] room = .ok z ∧
            z.result = .ready (.ok ()) ∧ z.put = [] :=
          h.read_end waits (nothing ▸ coming) (dry nothing)
        dsimp only [ReadEvent.ofAnswer]
        rw [h_z, ok_bind, h_ready]
        exact ⟨_, rfl, .ended rfl h_put (dry nothing)⟩
      | @put wire' below_eq ne_nil wire_eq ahead pendings_le =>
        rw [below_eq]
        have h_put := List.length_pos_iff.mpr ne_nil
        have h_len := congrArg List.length wire_eq
        rw [List.length_append] at h_len
        obtain ⟨z, h_z, h_heard⟩ :=
          h.read_data waits (wire_eq ▸ coming) ne_nil (h_fits h_y) h_room
        dsimp only [ReadEvent.ofAnswer]
        rw [h_z, ok_bind]
        cases h_heard with
        | @put rest' result_eq ne_nil rest_eq coming =>
          rw [result_eq]
          exact ⟨_, rfl, .put rfl ne_nil rest_eq ⟨wire', ahead, coming, by omega⟩ pendings_le⟩
        | ended result_eq put_eq nothing =>
          rw [result_eq]
          exact ⟨_, rfl, .ended rfl put_eq nothing⟩
        | pending result_eq coming waits dry =>
          rw [result_eq]
          dsimp only
          obtain ⟨w, h_w, h_delivery⟩ := ih ahead coming (by omega) (by omega)
          exact ⟨w, h_w, h_delivery.mono pendings_le⟩

/-! ### Writing -/

/-- **A write over a stream that works.** -/
theorem written_writeOver (h : L.Sits Coming Waits Owes taken)
    (h_Q : Q.Works AheadQ OwesQ costQ takenQ) (h_part : TakesPart takenQ) {n : ℕ} {s : S} {t : T}
    {ws : List WriteEvent} {data chunk owed : List UInt8} {slices chunks : List (List UInt8)}
    (h_owes : Owes s (data :: slices) (chunk :: chunks))
    (h_below : OwesQ t ((chunk :: chunks).flatMap (cut takenQ)) owed) (h_working : Working ws)
    (h_n : chunk.length < n) (h_fuel : ∀ c ∈ chunk :: chunks, c.length < fuel) :
    ∃ x, L.writeOver Q n s t ws data = .ok x ∧
      TwoWay.Written (OwesOver Owes OwesQ takenQ fuel) (fun x => costQ x.2) taken (s, t) ws data
        slices owed x := by
  -- each round has something of `chunk` taken
  induction n generalizing s t ws chunk owed with
  | zero => exact absurd h_n (Nat.not_lt_zero _)
  | succ n ih =>
    obtain ⟨_, _, x, h_eq, h_ne, h_offer⟩ := h.write h_owes
    cases h_eq
    rw [writeOver, h_offer.write_eq, ok_bind, h_offer.result_eq]
    dsimp only
    rw [h_offer.offers_eq]
    rw [List.flatMap_cons, cut_of_ne_nil h_part h_ne, List.cons_append] at h_below
    obtain ⟨y, h_y, h_written⟩ := h_Q.writes h_working h_below
    obtain ⟨h_pos, h_le⟩ := h_part chunk h_ne
    rw [h_y, ok_bind]
    cases h_written with
    | @pending owed' result_eq owed_eq owes not_out working spent accepts_le =>
      rw [result_eq]
      refine ⟨_, rfl, .pending rfl owed_eq ⟨chunk :: chunks, h_offer.owes, ?_, h_fuel⟩ not_out
        working spent accepts_le⟩
      rw [List.flatMap_cons, cut_of_ne_nil h_part h_ne, List.cons_append]
      exact owes
    | @ready owed' result_eq owed_eq owes working spent accepts_le =>
      rw [result_eq]
      dsimp only [WriteEvent.ofAnswer]
      rcases Nat.lt_or_ge (takenQ chunk) chunk.length with h_lt | h_ge
      · obtain ⟨z, h_z, h_pending, h_owes'⟩ := h_offer.part _ h_pos h_lt
        have h_drop : (chunk.drop (takenQ chunk)).length < n := by
          rw [List.length_drop]
          omega
        have h_fuel' : ∀ c ∈ chunk.drop (takenQ chunk) :: chunks, c.length < fuel := by
          intro c h_c
          rcases List.mem_cons.mp h_c with rfl | h_c
          · have h_chunk := h_fuel chunk List.mem_cons_self
            rw [List.length_drop]
            omega
          · exact h_fuel c (List.mem_cons_of_mem _ h_c)
        obtain ⟨w, h_w, h_later⟩ := ih (t := y.state) h_owes' (List.flatMap_cons ▸ owes) working
          h_drop h_fuel'
        rw [h_z, ok_bind, h_pending]
        dsimp only
        rw [h_w]
        refine ⟨_, rfl, ?_⟩
        have h_out : (y.out ++ w.out).length = y.out.length + w.out.length := List.length_append
        cases h_later with
        | @ready owed'' result_eq' owed_eq' owes' working' spent' accepts_le' =>
          refine .ready result_eq' ?_ owes' working' (Nat.le_trans spent' spent) ?_
          · rw [owed_eq, owed_eq', List.append_assoc]
          · show accepts ws ≤ (y.out ++ w.out).length + accepts w.events
            omega
        | @pending owed'' result_eq' owed_eq' owes' not_out working' spent' accepts_le' =>
          refine .pending result_eq' ?_ owes' not_out working'
            (spent'.imp_left fun h_lt => Nat.lt_of_lt_of_le h_lt spent) ?_
          · rw [owed_eq, owed_eq', List.append_assoc]
          · show accepts ws ≤ (y.out ++ w.out).length + accepts w.events
            omega
      · have h_whole : takenQ chunk = chunk.length := Nat.le_antisymm h_le h_ge
        obtain ⟨z, h_z, h_ready, h_owes'⟩ := h_offer.whole
        rw [h_whole, h_z, ok_bind, h_ready]
        rw [h_whole, List.drop_length, cut_nil, List.nil_append] at owes
        exact ⟨_, rfl, .ready rfl owed_eq ⟨chunks, h_owes', owes, fun c h_c =>
          h_fuel c (List.mem_cons_of_mem _ h_c)⟩ working spent accepts_le⟩

/-! ### Both directions -/

/-- **A read over a stream** keeps what is owed, by the code and below it. -/
theorem owes_of_readOver (h : L.Sits Coming Waits Owes taken)
    (h_Q : Q.Works AheadQ OwesQ costQ takenQ) {n : ℕ} {s : S} {t : T} {es : List ReadEvent}
    {room : ℕ} {x : ReadPoll (S × T)} (h_read : L.readOver Q n s t es room = .ok x) :
    (∀ slices chunks, Owes s slices chunks → Owes x.state.1 slices chunks) ∧
      (∀ slices owed, OwesQ t slices owed → OwesQ x.state.2 slices owed) ∧
      ∀ slices owed, OwesQ t slices owed → costQ x.state.2 = costQ t := by
  induction n generalizing s t es with
  | zero => cases h_read
  | succ n ih =>
    -- a poll is a round of three: the code up to its call, the call below, the code with its answer
    rw [readOver] at h_read
    obtain ⟨y, h_y, h_read⟩ := bind_eq_ok.mp h_read
    have h_above (slices chunks) (h_owes : Owes s slices chunks) : Owes y.state slices chunks :=
      h.read_owes h_y h_owes
    split at h_read
    · -- the code is ready without a call
      cases h_read
      exact ⟨h_above, fun _ _ h => h, fun _ _ _ => rfl⟩
    · obtain ⟨z, h_z, h_read⟩ := bind_eq_ok.mp h_read
      have h_below (slices owed) (h_owes : OwesQ t slices owed) :
          OwesQ z.state slices owed ∧ costQ z.state = costQ t := h_Q.read_owes h_z h_owes
      split at h_read
      · -- the call below is pending
        cases h_read
        exact ⟨h_above, fun _ _ h => (h_below _ _ h).1, fun _ _ h => (h_below _ _ h).2⟩
      · obtain ⟨v, h_v, h_read⟩ := bind_eq_ok.mp h_read
        have h_next (slices chunks) (h_owes : Owes s slices chunks) : Owes v.state slices chunks :=
          h.read_owes h_v (h_above _ _ h_owes)
        split at h_read
        · -- the code is ready with the answer
          cases h_read
          exact ⟨h_next, fun _ _ h => (h_below _ _ h).1, fun _ _ h => (h_below _ _ h).2⟩
        · -- it makes another call
          obtain ⟨h_later, h_later', h_cost⟩ := ih h_read
          exact ⟨fun _ _ h => h_later _ _ (h_next _ _ h),
            fun _ _ h => h_later' _ _ (h_below _ _ h).1,
            fun _ _ h => (h_cost _ _ (h_below _ _ h).1).trans (h_below _ _ h).2⟩

/-- **A write over a stream** keeps what is ahead, of the code and below it. -/
theorem ahead_of_writeOver (h : L.Sits Coming Waits Owes taken)
    (h_Q : Q.Works AheadQ OwesQ costQ takenQ) {n : ℕ} {s : S} {t : T} {ws : List WriteEvent}
    {data : List UInt8} {x : SinkPoll (S × T)} (h_write : L.writeOver Q n s t ws data = .ok x) :
    (∀ wire rest, Coming s wire rest → Coming x.state.1 wire rest) ∧
      ∀ es wire, AheadQ t es wire → AheadQ x.state.2 es wire := by
  induction n generalizing s t ws x with
  | zero => cases h_write
  | succ n ih =>
    rw [writeOver] at h_write
    obtain ⟨y, h_y, h_write⟩ := bind_eq_ok.mp h_write
    have h_above (wire rest) (h_coming : Coming s wire rest) : Coming y.state wire rest :=
      h.write_coming h_y h_coming
    split at h_write
    · -- the code is ready without a call
      cases h_write
      exact ⟨h_above, fun _ _ h => h⟩
    · obtain ⟨z, h_z, h_write⟩ := bind_eq_ok.mp h_write
      have h_below (es wire) (h_ahead : AheadQ t es wire) : AheadQ z.state es wire :=
        h_Q.write_ahead h_z h_ahead
      split at h_write
      · -- the call below is pending
        cases h_write
        exact ⟨h_above, h_below⟩
      · obtain ⟨v, h_v, h_write⟩ := bind_eq_ok.mp h_write
        have h_next (wire rest) (h_coming : Coming s wire rest) : Coming v.state wire rest :=
          h.write_coming h_v (h_above _ _ h_coming)
        split at h_write
        · -- the code is ready with the answer
          cases h_write
          exact ⟨h_next, h_below⟩
        · -- it offers what is left of its chunk, and another call is made
          obtain ⟨w, h_w, h_write⟩ := bind_eq_ok.mp h_write
          cases h_write
          obtain ⟨h_later, h_later'⟩ := ih h_w
          exact ⟨fun _ _ h => h_later _ _ (h_next _ _ h),
            fun _ _ h => h_later' _ _ (h_below _ _ h)⟩

/-- **The code over a stream that works is a stream that works.** -/
theorem Sits.works (h : L.Sits Coming Waits Owes taken) (h_fits : Q.Fits)
    (h_Q : Q.Works AheadQ OwesQ costQ takenQ) (h_part : TakesPart takenQ) (fuel : ℕ) :
    (L.streamOver Q fuel).Works (Ahead Coming AheadQ fuel) (OwesOver Owes OwesQ takenQ fuel)
      (fun x => costQ x.2) taken where
  reads := by
    -- to read: fewer calls than there are bytes below
    rintro ⟨s, t⟩ es rest room ⟨wire, h_ahead, h_coming, h_fuel⟩ h_room
    exact delivery_readOver h h_fits h_Q.reads h_ahead h_coming h_fuel h_fuel h_room
  writes := by
    -- to write: fewer calls than there are bytes in the chunk
    rintro ⟨s, t⟩ ws data slices owed h_working ⟨chunks, h_owes, h_below, h_fuel⟩
    obtain ⟨chunk, chunks, -, rfl, -, -⟩ := h.write h_owes
    exact written_writeOver h h_Q h_part h_owes h_below h_working
      (h_fuel chunk List.mem_cons_self) h_fuel
  read_owes := by
    -- a read goes through the code and the stream below, and both keep what is owed
    rintro ⟨s, t⟩ es room x slices owed h_read ⟨chunks, h_owes, h_below, h_fuel⟩
    obtain ⟨h_above, h_below', h_cost⟩ := owes_of_readOver h h_Q h_read
    exact ⟨⟨chunks, h_above _ _ h_owes, h_below' _ _ h_below, h_fuel⟩, h_cost _ _ h_below⟩
  write_ahead := by
    -- a write goes through both, and both keep what is ahead
    rintro ⟨s, t⟩ ws data x es rest h_write ⟨wire, h_ahead, h_coming, h_fuel⟩
    obtain ⟨h_above, h_below⟩ := ahead_of_writeOver h h_Q h_write
    exact ⟨wire, h_below _ _ h_ahead, h_above _ _ h_coming, h_fuel⟩

/-- What the code puts fits into the destination, over any stream. -/
theorem fits_streamOver (h_fits : L.toTwoWay.Fits) (Q : TwoWay T) (fuel : ℕ) :
    (L.streamOver Q fuel).Fits := by
  rintro ⟨s, t⟩ es room x h_read
  change L.readOver Q fuel s t es room = .ok x at h_read
  -- on the calls that are left
  generalize fuel = n at h_read
  induction n generalizing s t es with
  | zero => cases h_read
  | succ n ih =>
    rw [readOver] at h_read
    obtain ⟨y, h_y, h_read⟩ := bind_eq_ok.mp h_read
    split at h_read
    · -- the code is ready without a call
      cases h_read
      exact h_fits h_y
    · obtain ⟨z, -, h_read⟩ := bind_eq_ok.mp h_read
      split at h_read
      · -- the call below is pending, and nothing is put
        cases h_read
        exact Nat.zero_le _
      · obtain ⟨v, h_v, h_read⟩ := bind_eq_ok.mp h_read
        split at h_read
        · -- the code is ready with the answer
          cases h_read
          exact h_fits h_v
        · exact ih _ _ h_read

end Overlay

end V2ray
