import V2rayRust.Config.Routing
import V2rayRust.Proxy.Socks.Socks5Udp

/-!
# The way up of an association

What happens to one outbound: the step relation of `Socks5Udp` seen from its `slot`
(`change_of_step`). The cell between the two tasks holds one packet, so nothing is lost only if
each datagram comes after `send_to` has returned for the one before (`Paced`); and the receive
task blocks the thread exactly when a datagram comes for an outbound whose `send_to` is
pending (`Unhurried`).

Where the tasks of an outbound stand can be told from the last thing that concerned it: a packet
that came, or an answer to `send_to` (`Stands`, `Knows`). A step keeps this relation, and so does
every run; what a schedule must be like for a datagram to get through is then read off the schedule
alone.
-/

namespace V2ray

/-! ### One outbound -/

/-- What concerns one outbound in a schedule. -/
inductive Mark
  | arrival (packet : Packet)
  | answer (a : Poll (Except String ℕ))
  deriving DecidableEq

namespace Mark

def packet : Mark → Option Packet
  | arrival p => some p
  | answer _ => none

def sendAnswer : Mark → Option (Poll (Except String ℕ))
  | arrival _ => none
  | answer a => some a

end Mark

/-- What an association has for an outbound. -/
inductive Slot
  | absent
  /-- its stream is being built, for this packet -/
  | opening (packet : Packet)
  | held (o : Outbound)

namespace Association

def slot (s : Association) (ob : String) : Slot :=
  match s.nat.lookup ob with
  | some o => .held o
  | none =>
    match s.recv with
    | .building ob' _ packet _ => if ob' = ob then .opening packet else .absent
    | _ => .absent

variable {s s' : Association} {ob : String} {o : Outbound}

theorem slot_of_some (h : s.nat.lookup ob = some o) : s.slot ob = .held o := by
  unfold slot
  rw [h]

theorem slot_of_listening (h : s.nat.lookup ob = none) (h_recv : s.recv = .listening) :
    s.slot ob = .absent := by
  unfold slot
  rw [h, h_recv]

/-- What the slot is read off. -/
theorem slot_congr (h_nat : s'.nat.lookup ob = s.nat.lookup ob) (h_recv : s'.recv = s.recv) :
    s'.slot ob = s.slot ob := by
  unfold slot
  rw [h_nat, h_recv]

end Association

namespace Socks5UdpDatagram

variable (D : Socks5UdpDatagram) (ob : String)

/-- What an action is to an outbound. -/
def mark : Action → Option Mark
  | .recv item _ =>
    match D.route item with
    | .ok (some (ob', packet)) => if ob' = ob then some (.arrival packet) else none
    | _ => none
  | .write ob' answer => if ob' = ob then some (.answer answer) else none
  | _ => none

def marks (as : List Action) : List Mark := as.filterMap (D.mark ob)

/-- The packets of the datagrams for an outbound, in the order of their arrival. -/
def arrivals (as : List Action) : List Packet := (D.marks ob as).filterMap Mark.packet

variable {D ob} {s s' : Association} {as : List Action} {a : Action}

theorem marks_concat : D.marks ob (as ++ [a]) = D.marks ob as ++ (D.mark ob a).toList := by
  unfold marks
  rw [List.filterMap_append]
  cases h : D.mark ob a <;> simp [h]

theorem marks_concat_of_some {m : Mark} (h : D.mark ob a = some m) :
    D.marks ob (as ++ [a]) = D.marks ob as ++ [m] := by
  rw [marks_concat, h]
  rfl

theorem marks_concat_of_none (h : D.mark ob a = none) :
    D.marks ob (as ++ [a]) = D.marks ob as := by
  rw [marks_concat, h]
  exact List.append_nil _

theorem arrivals_concat : D.arrivals ob (as ++ [a]) =
    D.arrivals ob as ++ ((D.mark ob a).bind Mark.packet).toList := by
  unfold arrivals
  rw [marks_concat, List.filterMap_append]
  congr 1
  cases h : D.mark ob a with
  | none => rfl
  | some m => cases h_m : m.packet <;> simp [h_m]

theorem mark_recv {item : Received} {W : World} {ob' : String} {packet : Packet}
    (h : D.route item = .ok (some (ob', packet))) :
    D.mark ob (.recv item W) = if ob' = ob then some (.arrival packet) else none := by
  show (match D.route item with
    | .ok (some (ob', packet)) => if ob' = ob then some (Mark.arrival packet) else none
    | _ => none) = _
  rw [h]

/-- While nobody serves the association there are no tasks, or the thread is blocked. -/
theorem nat_of_run (h : D.run as = some s) (h_recv : s.recv = .stopped ∨ s.recv = .closed) :
    s.nat = ∅ := by
  refine run_induction (P := fun _ s => (s.recv = .stopped ∨ s.recv = .closed) → s.nat = ∅)
    (fun _ => rfl) ?_ h h_recv
  intro _ m a m' _ ih h_step h_recv
  cases stepped_of_step h_step with
  | skipped listening _ | queued listening _ _ _ | dropped listening _ _ _ =>
    rcases h_recv with h_recv | h_recv <;> exact (by cases listening.symm.trans h_recv)
  | refused _ _ | missing _ _ _ _ | failed _ _ | closed _ _ => rfl
  | opened _ _ _ _ | blocked _ _ _ _ | entered _ _ =>
    rcases h_recv with h_recv | h_recv <;> cases h_recv
  | unread dead => exact ih h_recv
  | wrote _ nat_eq _ =>
    -- there is no task left to be polled
    rw [ih h_recv] at nat_eq
    cases nat_eq

/-- An outbound that is being built does not exist yet. -/
theorem lookup_of_building (h : D.run as = some s) {builder : ChainStreamBuilder} {packet : Packet}
    {W : World} (h_recv : s.recv = .building ob builder packet W) : s.nat.lookup ob = none := by
  refine run_induction (P := fun _ s => ∀ ob builder packet W,
    s.recv = .building ob builder packet W → s.nat.lookup ob = none) ?_ ?_ h ob builder packet W
      h_recv
  · intro _ _ _ _ h_recv
    cases h_recv
  intro _ m a m' _ ih h_step ob builder packet W h_recv
  cases stepped_of_step h_step with
  | skipped listening _ | queued listening _ _ _ | dropped listening _ _ _ =>
    cases listening.symm.trans h_recv
  | refused _ _ | missing _ _ _ _ | failed _ _ | closed _ _ | blocked _ _ _ _ | entered _ _ =>
    cases h_recv
  | opened _ _ nat_eq _ =>
    cases h_recv
    exact nat_eq
  | unread _ => exact ih ob builder packet W h_recv
  | @wrote ob' _ _ _ _ _ nat_eq _ =>
    have h_nat := ih ob builder packet W h_recv
    -- the task that was polled is one of another outbound
    have h_ne : ob' ≠ ob := by
      rintro rfl
      cases nat_eq.symm.trans h_nat
    exact (AList.lookup_insert_ne (Ne.symm h_ne)).trans h_nat

/-- An association with an entry lives, unless its thread is blocked. -/
theorem live_of_lookup (h : D.run as = some s) (h_runs : ∀ ob, s.recv ≠ .blocked ob)
    {o : Outbound} (h_nat : s.nat.lookup ob = some o) : Live s := by
  cases h_recv : s.recv with
  | listening => exact Or.inl h_recv
  | building ob' builder packet W => exact Or.inr ⟨ob', builder, packet, W, h_recv⟩
  | blocked ob' => exact (h_runs ob' h_recv).elim
  | stopped =>
    rw [nat_of_run h (Or.inl h_recv)] at h_nat
    cases h_nat
  | closed =>
    rw [nat_of_run h (Or.inr h_recv)] at h_nat
    cases h_nat

/-- A step as one outbound sees it: what the action is to it, the calls of `send_to` that it
makes, and the polls of them. -/
inductive Change (ob : String) (s s' : Association) :
    Option Mark → List Packet → List (Packet × Poll (Except String ℕ)) → Prop
  | kept (live : Live s ∧ Live s') (slot_eq : s'.slot ob = s.slot ob) : Change ob s s' none [] []
  /-- nobody serves the association any more -/
  | died {m : Option Mark} (dead : ¬ Live s') : Change ob s s' m [] []
  | opened {packet : Packet} (live : Live s ∧ Live s') (slot_eq : s.slot ob = .absent)
      (slot_eq' : s'.slot ob = .opening packet) : Change ob s s' (some (.arrival packet)) [] []
  | entered {packet : Packet} (live : Live s ∧ Live s') (slot_eq : s.slot ob = .opening packet)
      (slot_eq' : s'.slot ob = .held (.new packet)) : Change ob s s' none [] []
  | queued {packet : Packet} {o : Outbound} (live : Live s ∧ Live s')
      (slot_eq : s.slot ob = .held o)
      (stage_eq : o.stage = .start ∨ o.stage = .waiting)
      (slot_eq' : s'.slot ob = .held { o with cell := o.cell.send packet }) :
      Change ob s s' (some (.arrival packet)) [] []
  | dropped {packet : Packet} {o : Outbound} (live : Live s ∧ Live s')
      (slot_eq : s.slot ob = .held o)
      (stage_eq : o.stage = .finished) (slot_eq' : s'.slot ob = .held o) :
      Change ob s s' (some (.arrival packet)) [] []
  | wrote {o o' : Outbound} {call : Option Packet} {answer : Poll (Except String ℕ)}
      (live : Live s ∧ Live s') (slot_eq : s.slot ob = .held o)
      (borrow_eq : o.borrow = some (o', call))
      (slot_eq' : s'.slot ob = .held (o'.answered answer)) :
      Change ob s s' (some (.answer answer)) call.toList [(o'.cell.value, answer)]

theorem lookup_insert_of_ne {nat : AList fun _ : String => Outbound} {ob ob' : String}
    {o : Outbound} (h : ob' ≠ ob) : (nat.insert ob' o).lookup ob = nat.lookup ob :=
  AList.lookup_insert_ne (Ne.symm h)

/-- A datagram that is for another outbound, or for none. -/
theorem mark_recv_of_ne {item : Received} {W : World} {ob' : String} {packet : Packet}
    (h : D.route item = .ok (some (ob', packet))) (h_ne : ob' ≠ ob) :
    D.mark ob (.recv item W) = none :=
  (mark_recv h).trans (if_neg h_ne)

theorem not_live_of_stopped (h : s.recv = .stopped) : ¬ Live s := by
  rintro (h_l | ⟨_, _, _, _, h_b⟩)
  · cases h.symm.trans h_l
  · cases h.symm.trans h_b

theorem not_live_of_blocked {ob : String} (h : s.recv = .blocked ob) : ¬ Live s := by
  rintro (h_l | ⟨_, _, _, _, h_b⟩)
  · cases h.symm.trans h_l
  · cases h.symm.trans h_b

theorem not_live_of_closed (h : s.recv = .closed) : ¬ Live s := by
  rintro (h_l | ⟨_, _, _, _, h_b⟩)
  · cases h.symm.trans h_l
  · cases h.symm.trans h_b

/-- **What a step does to an outbound.** -/
theorem change_of_step (h_run : D.run as = some s) (h : D.step s a = some s') (ob : String) :
    ∃ calls polls, Change ob s s' (D.mark ob a) calls polls ∧
      entriesAt s'.sends ob = entriesAt s.sends ob ++ calls ∧
      entriesAt s'.polls ob = entriesAt s.polls ob ++ polls := by
  have h_nil {β : Type} (es : List (String × β)) : entriesAt es ob = entriesAt es ob ++ [] :=
    (List.append_nil _).symm
  -- what touches the outbound is told apart from what touches another one
  cases stepped_of_step h with
  | skipped listening route_eq =>
    refine ⟨[], [], ?_, h_nil _, h_nil _⟩
    rw [show D.mark ob (.recv _ _) = none by simp only [mark, route_eq]]
    exact .kept ⟨Or.inl listening, Or.inl listening⟩ rfl
  | refused _ _ | missing _ _ _ _ | failed _ _ =>
    exact ⟨[], [], .died (not_live_of_stopped rfl), h_nil _, h_nil _⟩
  | blocked _ _ _ _ => exact ⟨[], [], .died (not_live_of_blocked rfl), h_nil _, h_nil _⟩
  | closed _ _ => exact ⟨[], [], .died (not_live_of_closed rfl), h_nil _, h_nil _⟩
  | unread dead =>
    refine ⟨[], [], .died ?_, h_nil _, h_nil _⟩
    rcases dead with dead | ⟨_, dead⟩
    · exact not_live_of_stopped dead
    · exact not_live_of_blocked dead
  | @opened item W ob' packet builder listening route_eq nat_eq _ =>
    refine ⟨[], [], ?_, h_nil _, h_nil _⟩
    by_cases h_ob : ob' = ob
    · subst h_ob
      rw [mark_recv route_eq, if_pos rfl]
      refine .opened ⟨Or.inl listening, Or.inr ⟨_, _, _, _, rfl⟩⟩
        (Association.slot_of_listening nat_eq listening) ?_
      show (match s.nat.lookup ob' with
        | some o => Slot.held o
        | none => if ob' = ob' then .opening packet else .absent) = _
      rw [nat_eq, if_pos rfl]
    · rw [mark_recv_of_ne route_eq h_ob]
      refine .kept ⟨Or.inl listening, Or.inr ⟨_, _, _, _, rfl⟩⟩ ?_
      unfold Association.slot
      simp only [listening, if_neg h_ob]
  | @queued item W ob' packet o listening route_eq nat_eq stage_eq =>
    refine ⟨[], [], ?_, h_nil _, h_nil _⟩
    by_cases h_ob : ob' = ob
    · subst h_ob
      rw [mark_recv route_eq, if_pos rfl]
      exact .queued ⟨Or.inl listening, Or.inl listening⟩ (Association.slot_of_some nat_eq) stage_eq
        (Association.slot_of_some (AList.lookup_insert _))
    · rw [mark_recv_of_ne route_eq h_ob]
      exact .kept ⟨Or.inl listening, Or.inl listening⟩
        (Association.slot_congr (lookup_insert_of_ne h_ob) rfl)
  | @dropped item W ob' packet o listening route_eq nat_eq stage_eq =>
    refine ⟨[], [], ?_, h_nil _, h_nil _⟩
    by_cases h_ob : ob' = ob
    · subst h_ob
      rw [mark_recv route_eq, if_pos rfl]
      have h_slot : s.slot ob' = .held o := Association.slot_of_some nat_eq
      exact .dropped ⟨Or.inl listening, Or.inl listening⟩ h_slot stage_eq h_slot
    · rw [mark_recv_of_ne route_eq h_ob]
      exact .kept ⟨Or.inl listening, Or.inl listening⟩ rfl
  -- the stream is there: the slot is that of the packet it was built for
  | @entered ob' builder packet W stream building _ =>
    have h_live : Live s := Or.inr ⟨_, _, _, _, building⟩
    have h_nat := lookup_of_building h_run building
    refine ⟨[], [], ?_, h_nil _, h_nil _⟩
    by_cases h_ob : ob' = ob
    · subst h_ob
      refine .entered ⟨h_live, Or.inl rfl⟩ ?_ (Association.slot_of_some (AList.lookup_insert _))
      unfold Association.slot
      simp only [h_nat, building, if_true]
    · refine .kept ⟨h_live, Or.inl rfl⟩ ?_
      unfold Association.slot
      simp only [lookup_insert_of_ne h_ob, building, if_neg h_ob]
  -- the packet in the cell is passed on, if it has not been seen
  | @wrote ob' answer o o' call runs nat_eq borrow_eq =>
    have h_live := live_of_lookup h_run runs nat_eq
    by_cases h_ob : ob' = ob
    · subst h_ob
      refine ⟨call.toList, [(o'.cell.value, answer)], ?_, ?_, entriesAt_concat_self _ _ _⟩
      · rw [show D.mark ob' (.write ob' answer) = some (.answer answer) from if_pos rfl]
        exact .wrote ⟨h_live, h_live⟩ (Association.slot_of_some nat_eq) borrow_eq
          (Association.slot_of_some (AList.lookup_insert _))
      · cases call with
        | none =>
          show entriesAt (s.sends ++ []) ob' = _
          rw [List.append_nil]
          exact h_nil _
        | some packet => exact entriesAt_concat_self _ _ _
    · refine ⟨[], [], ?_, ?_, ?_⟩
      · rw [show D.mark ob (.write ob' answer) = none from if_neg h_ob]
        exact .kept ⟨h_live, h_live⟩ (Association.slot_congr (lookup_insert_of_ne h_ob) rfl)
      · cases call with
        | none =>
          show entriesAt (s.sends ++ []) ob = _
          rw [List.append_nil]
          exact h_nil _
        | some packet => exact (entriesAt_concat_of_ne _ (Ne.symm h_ob) _).trans (h_nil _)
      · exact (entriesAt_concat_of_ne _ (Ne.symm h_ob) _).trans (h_nil _)

/-- A step of an association that is served before and after it, or one that passes nothing on. -/
theorem Change.live_or {m : Option Mark} {calls : List Packet}
    {polls : List (Packet × Poll (Except String ℕ))} (h : Change ob s s' m calls polls) :
    Live s ∧ Live s' ∨ ¬ Live s' ∧ calls = [] ∧ polls = [] := by
  cases h with
  | died dead => exact Or.inr ⟨dead, rfl, rfl⟩
  | kept live _ | opened live _ _ | entered live _ _ | queued live _ _ _ | dropped live _ _ _
  | wrote live _ _ _ => exact Or.inl live

/-! ### Nothing is lost -/

/-- Where an outbound stands after the last thing that concerned it, and the packets that have
come for it and are not passed to `send_to` yet. -/
inductive Stands : Slot → Option Mark → List Packet → Prop
  | absent : Stands .absent none []
  | opening (packet : Packet) : Stands (.opening packet) (some (.arrival packet)) [packet]
  | started {o : Outbound} (stage_eq : o.stage = .start) (seen_eq : o.seen = o.cell.version) :
      Stands (.held o) (some (.arrival o.cell.value)) [o.cell.value]
  | newer {o : Outbound} (stage_eq : o.stage = .waiting) (seen_lt : o.seen < o.cell.version) :
      Stands (.held o) (some (.arrival o.cell.value)) [o.cell.value]
  | sending {o : Outbound} (stage_eq : o.stage = .sending) (seen_eq : o.seen = o.cell.version) :
      Stands (.held o) (some (.answer .pending)) []
  | idle {o : Outbound} {n : ℕ} (stage_eq : o.stage = .waiting)
      (seen_eq : o.seen = o.cell.version) :
      Stands (.held o) (some (.answer (.ready (.ok n)))) []
  | finished {o : Outbound} {e : String} (stage_eq : o.stage = .finished) :
      Stands (.held o) (some (.answer (.ready (.error e)))) []

/-- The uplink is free: nothing has come yet, or `send_to` has returned for what came last. -/
def Free (last : Option Mark) : Prop := last = none ∨ ∃ n, last = some (.answer (.ready (.ok n)))

/-- Every datagram for the outbound comes after `send_to` has returned for the one before. -/
def Paced (D : Socks5UdpDatagram) (ob : String) (as : List Action) : Prop :=
  AtEach (fun before m => m.packet ≠ none → Free before.getLast?) (D.marks ob as)

theorem stands_answered {o : Outbound} (h : o.seen = o.cell.version)
    (answer : Poll (Except String ℕ)) :
    Stands (.held (o.answered answer)) (some (.answer answer)) [] := by
  cases answer with
  | pending => exact .sending rfl h
  | ready r =>
    cases r with
    | ok n => exact .idle rfl h
    | error e => exact .finished rfl

/-- A free uplink whose task lives waits in `changed`, and has seen everything. -/
theorem Stands.of_free {o : Outbound} {last : Option Mark} {unsent : List Packet}
    (h : Stands (.held o) last unsent) (h_free : Free last) :
    o.stage = .waiting ∧ o.seen = o.cell.version ∧ unsent = [] := by
  rcases h_free with rfl | ⟨n, rfl⟩
  · cases h
  · cases h with
    | idle stage_eq seen_eq => exact ⟨stage_eq, seen_eq, rfl⟩

/-- A poll of the task passes on what is unsent. -/
theorem Stands.borrow {o o' : Outbound} {call : Option Packet} {last : Option Mark}
    {unsent : List Packet} (h : Stands (.held o) last unsent)
    (h_borrow : o.borrow = some (o', call)) :
    call.toList = unsent ∧ o'.seen = o'.cell.version := by
  unfold Outbound.borrow at h_borrow
  cases h with
  | started stage_eq seen_eq =>
    rw [stage_eq] at h_borrow
    cases h_borrow
    exact ⟨rfl, seen_eq⟩
  | newer stage_eq seen_lt =>
    rw [stage_eq] at h_borrow
    dsimp only at h_borrow
    rw [if_pos seen_lt] at h_borrow
    cases h_borrow
    exact ⟨rfl, rfl⟩
  | sending stage_eq seen_eq =>
    rw [stage_eq] at h_borrow
    cases h_borrow
    exact ⟨rfl, seen_eq⟩
  | idle stage_eq seen_eq =>
    -- there is nothing new, so the poll of `changed` is pending
    rw [stage_eq] at h_borrow
    dsimp only at h_borrow
    rw [if_neg (Nat.lt_irrefl _ <| seen_eq ▸ ·)] at h_borrow
    cases h_borrow
  | finished stage_eq =>
    rw [stage_eq] at h_borrow
    cases h_borrow

/-- A task that has something to send is polled when it is its turn. -/
theorem Stands.exists_borrow {o : Outbound} {last : Option Mark} {packet : Packet}
    {unsent : List Packet} (h : Stands (.held o) last (packet :: unsent)) :
    ∃ o', o.borrow = some (o', some packet) := by
  unfold Outbound.borrow
  cases h with
  | started stage_eq _ => exact ⟨o, by rw [stage_eq]⟩
  | newer stage_eq seen_lt => exact ⟨_, by rw [stage_eq]; exact if_pos seen_lt⟩

/-- **One step**: what was unsent and what has come are what is passed on and what is unsent. -/
theorem Stands.change {last m : Option Mark} {unsent calls : List Packet}
    {polls : List (Packet × Poll (Except String ℕ))} (h : Stands (s.slot ob) last unsent)
    (h_change : Change ob s s' m calls polls) (h_live : Live s')
    (h_free : m.bind Mark.packet ≠ none → Free last) :
    ∃ unsent', Stands (s'.slot ob) (m.or last) unsent' ∧
      unsent ++ (m.bind Mark.packet).toList = calls ++ unsent' := by
  -- one case for each change of the slot
  cases h_change with
  | kept _ slot_eq => exact ⟨unsent, slot_eq ▸ h, List.append_nil _⟩
  | died dead => exact (dead h_live).elim
  | @opened packet _ slot_eq slot_eq' =>
    rw [slot_eq] at h
    cases h
    rw [slot_eq']
    exact ⟨[packet], .opening packet, rfl⟩
  | @entered packet _ slot_eq slot_eq' =>
    rw [slot_eq] at h
    cases h
    rw [slot_eq']
    exact ⟨[packet], .started rfl rfl, rfl⟩
  | @queued packet o _ slot_eq _ slot_eq' =>
    rw [slot_eq] at h
    -- the task is free, so it has passed on the packet before
    obtain ⟨stage_eq, seen_eq, rfl⟩ := h.of_free (h_free (Option.some_ne_none packet))
    rw [slot_eq']
    refine ⟨[packet], .newer stage_eq ?_, rfl⟩
    show o.seen < o.cell.version + 1
    rw [seen_eq]
    exact Nat.lt_add_one _
  | @dropped packet o _ slot_eq stage_eq _ =>
    rw [slot_eq] at h
    obtain ⟨stage_eq', _, _⟩ := h.of_free (h_free (Option.some_ne_none packet))
    cases stage_eq.symm.trans stage_eq'
  | @wrote o o' call answer _ slot_eq borrow_eq slot_eq' =>
    -- the task had failed, and is not free
    rw [slot_eq] at h
    obtain ⟨rfl, seen_eq⟩ := h.borrow borrow_eq
    rw [slot_eq']
    exact ⟨[], stands_answered seen_eq answer, rfl⟩

/-- What is true of the uplink after the actions `as`. -/
structure Uplink (D : Socks5UdpDatagram) (ob : String) (as : List Action) (s : Association) :
    Prop where
  passed : entriesAt s.sends ob <+: D.arrivals ob as
  stands : Live s → ∃ unsent, Stands (s.slot ob) (D.marks ob as).getLast? unsent ∧
    D.arrivals ob as = entriesAt s.sends ob ++ unsent

theorem getLast?_marks_concat :
    (D.marks ob (as ++ [a])).getLast? = (D.mark ob a).or (D.marks ob as).getLast? := by
  cases h : D.mark ob a with
  | none => rw [marks_concat_of_none h]; rfl
  | some m => rw [marks_concat_of_some h, List.getLast?_concat]; rfl

theorem Paced.of_concat (h : Paced D ob (as ++ [a])) : Paced D ob as ∧
    ((D.mark ob a).bind Mark.packet ≠ none → Free (D.marks ob as).getLast?) := by
  unfold Paced at h
  rw [marks_concat] at h
  refine ⟨h.of_append, ?_⟩
  cases h_mark : D.mark ob a with
  | none => exact fun h_ne => (h_ne rfl).elim
  | some m =>
    rw [h_mark] at h
    exact (atEach_concat.mp h).2

/-- In a paced run an outbound has sent what has come for it, up to what stands in its slot. -/
theorem uplink_of_paced (h_run : D.run as = some s) (h_paced : Paced D ob as) :
    Uplink D ob as s := by
  refine run_induction (P := fun as s => Paced D ob as → Uplink D ob as s) ?_ ?_ h_run h_paced
  · intro _
    exact ⟨List.prefix_rfl, fun _ => ⟨[], .absent, rfl⟩⟩
  intro as m a m' h_run ih h_step h_paced
  obtain ⟨h_paced, h_free⟩ := h_paced.of_concat
  obtain ⟨h_passed, h_stands⟩ := ih h_paced
  obtain ⟨calls, polls, h_change, h_sends, _⟩ := change_of_step h_run h_step ob
  rcases h_change.live_or with ⟨h_live, h_live'⟩ | ⟨h_dead, rfl, _⟩
  · obtain ⟨unsent, h_stand, h_arrivals⟩ := h_stands h_live
    obtain ⟨unsent', h_stand', h_conserved⟩ := h_stand.change h_change h_live' h_free
    have h_all : D.arrivals ob (as ++ [a]) = entriesAt m'.sends ob ++ unsent' := by
      rw [arrivals_concat, h_arrivals, List.append_assoc, h_conserved, h_sends, List.append_assoc]
    refine ⟨h_all ▸ List.prefix_append _ _, fun _ => ⟨unsent', ?_, h_all⟩⟩
    rw [getLast?_marks_concat]
    exact h_stand'
  · -- what comes now is not received
    refine ⟨?_, fun h_live => (h_dead h_live).elim⟩
    rw [h_sends, List.append_nil, arrivals_concat]
    exact h_passed.trans (List.prefix_append _ _)

theorem step_write (h : Live s) (answer : Poll (Except String ℕ)) :
    D.step s (.write ob answer) = s.write ob answer := by
  rcases h with h_recv | ⟨_, _, _, _, h_recv⟩
  · rw [step, h_recv]
  · rw [step, h_recv]

/-- A turn of a write task calls `send_to` with what it has borrowed, if it has. -/
theorem write_of_borrow {o o' : Outbound} {call : Option Packet} {answer : Poll (Except String ℕ)}
    (h_nat : s.nat.lookup ob = some o) (h_borrow : o.borrow = some (o', call)) :
    s.write ob answer = some
      { s with nat := s.nat.insert ob (o'.answered answer)
               sends := s.sends ++ call.toList.map (ob, ·)
               polls := s.polls ++ [(ob, o'.cell.value, answer)] } := by
  unfold Association.write
  rw [h_nat, Option.bind_eq_bind, Option.bind_some, h_borrow]
  rfl

/-- **The uplink, when it is paced.** What is passed to `send_to` is a prefix of what has come for
the outbound, each packet with its own target. While the association is served it is all of it,
or the next poll of the write task passes on what is missing. -/
theorem udp_uplink_of_paced (h_run : D.run as = some s) (h_paced : Paced D ob as) :
    entriesAt s.sends ob <+: D.arrivals ob as ∧
    (Live s → ∀ o, s.nat.lookup ob = some o →
      entriesAt s.sends ob = D.arrivals ob as ∨
      ∀ answer, ∃ s', D.step s (.write ob answer) = some s' ∧
        entriesAt s'.sends ob = D.arrivals ob as) := by
  obtain ⟨h_passed, h_stands⟩ := uplink_of_paced h_run h_paced
  refine ⟨h_passed, fun h_live o h_nat => ?_⟩
  obtain ⟨unsent, h_stand, h_arrivals⟩ := h_stands h_live
  rw [Association.slot_of_some h_nat] at h_stand
  -- there is at most one packet that is not passed on yet, in the slot
  cases unsent with
  | nil => exact Or.inl (h_arrivals.trans (List.append_nil _)).symm
  | cons packet unsent =>
    refine Or.inr fun answer => ?_
    obtain ⟨o', h_borrow⟩ := h_stand.exists_borrow
    obtain ⟨h_call, _⟩ := h_stand.borrow h_borrow
    refine ⟨_, (step_write h_live answer).trans (write_of_borrow h_nat h_borrow), ?_⟩
    rw [h_arrivals, ← h_call]
    exact entriesAt_concat_self _ _ _

/-- One direct outbound, which takes everything. -/
def directOnly : Socks5UdpDatagram where
  R := .offline
  router := ⟨[], .new, [], "direct"⟩
  innerMap := AList.insert "direct" ⟨[.direct], none, none, [false], none, false⟩ ∅
  peerIp := .v4 0
  leftover bytes := if bytes = [] then none else some "bytes remaining on stream"

/-- A datagram for `10.0.0.d`, port 53, and its packet. -/
def datagramTo (d : UInt8) (data : List UInt8) : Received :=
  .ok ([0, 0, 0, 1, 10, 0, 0, d, 0, 53] ++ data)

def packetTo (d : UInt8) (data : List UInt8) : Packet :=
  (.socketAddress (.v4 (BitVec.ofNat 32 (0x0A000000 + d.toNat)) 53), data)

/-- Two datagrams, the second after `send_to` has returned for the first. -/
def inTurn : List Action :=
  [.recv (datagramTo 1 [7]) .calm, .built, .write "direct" .pending,
    .write "direct" (.ready (.ok 1)), .recv (datagramTo 2 [8]) .calm]

/-- Two datagrams, of which the second comes when the first has been sent. -/
theorem udp_uplink_of_paced_inTurn :
    ∃ s, directOnly.run inTurn = some s ∧
      directOnly.arrivals "direct" inTurn = [packetTo 1 [7], packetTo 2 [8]] ∧
      ∀ answer, ∃ s', directOnly.step s (.write "direct" answer) = some s' ∧
        entriesAt s'.sends "direct" = [packetTo 1 [7], packetTo 2 [8]] := by
  refine ⟨_, rfl, by decide, ?_⟩
  have h_marks : directOnly.marks "direct" inTurn =
      [.arrival (packetTo 1 [7]), .answer .pending, .answer (.ready (.ok 1)),
        .arrival (packetTo 2 [8])] := by decide
  have h_paced : Paced directOnly "direct" inTurn := by
    unfold Paced
    rw [h_marks]
    simp [atEach_cons, atEach_nil, Free, Mark.packet]
  have h_main := (udp_uplink_of_paced rfl h_paced).2 (Or.inl rfl) _ rfl
  rcases h_main with h_all | h_next
  · exact absurd h_all (by decide)
  · exact h_next

/-- Two datagrams before the first poll of the write task. -/
def atOnce : List Action :=
  [.recv (datagramTo 1 [7]) .calm, .built, .recv (datagramTo 2 [8]) .calm,
    .write "direct" (.ready (.ok 1)), .write "direct" (.ready (.ok 1))]

/-- The first is lost and the second is sent twice, and then the write task is suspended. -/
theorem udp_uplink_overwrites :
    ∃ s, directOnly.run atOnce = some s ∧
      directOnly.arrivals "direct" atOnce = [packetTo 1 [7], packetTo 2 [8]] ∧
      entriesAt s.sends "direct" = [packetTo 2 [8], packetTo 2 [8]] ∧
      ∀ answer, directOnly.step s (.write "direct" answer) = none :=
  ⟨_, rfl, by decide, by decide, fun _ => rfl⟩

/-! ### What a schedule tells of the state -/

/-- The last answer of the `send_to` of an outbound. -/
def lastAnswer (D : Socks5UdpDatagram) (ob : String) (as : List Action) :
    Option (Poll (Except String ℕ)) :=
  ((D.marks ob as).filterMap Mark.sendAnswer).getLast?

theorem lastAnswer_concat : D.lastAnswer ob (as ++ [a]) =
    ((D.mark ob a).bind Mark.sendAnswer).or (D.lastAnswer ob as) := by
  unfold lastAnswer
  rw [marks_concat, List.filterMap_append]
  cases h : D.mark ob a with
  | none => simp
  | some m => cases h_m : m.sendAnswer <;> simp [h_m]

/-- Where its last answer has left a write task. -/
def stageAfter : Option (Poll (Except String ℕ)) → WriteStage
  | none => .start
  | some .pending => .sending
  | some (.ready (.ok _)) => .waiting
  | some (.ready (.error _)) => .finished

/-- A write task is in `send_to` after a pending poll, and only then. -/
theorem stageAfter_eq_sending {last : Option (Poll (Except String ℕ))} :
    stageAfter last = .sending ↔ last = some .pending := by
  constructor
  · intro h
    match last with
    | some .pending => rfl
  · rintro rfl
    rfl

theorem stageAfter_eq_finished {last : Option (Poll (Except String ℕ))}
    (h : stageAfter last = .finished) : ∃ e, last = some (.ready (.error e)) := by
  match last with
  | some (.ready (.error e)) => exact ⟨e, rfl⟩

/-- What is known of an outbound from the packets that have come for it and its last answer. -/
inductive Knows : Slot → List Packet → Option (Poll (Except String ℕ)) → Prop
  | absent : Knows .absent [] none
  | opening (packet : Packet) : Knows (.opening packet) [packet] none
  | held {o : Outbound} {packets : List Packet} {last : Option (Poll (Except String ℕ))}
      (stage_eq : o.stage = stageAfter last) (mem : o.cell.value ∈ packets) :
      Knows (.held o) packets last

theorem cell_of_borrow {o o' : Outbound} {call : Option Packet} (h : o.borrow = some (o', call)) :
    o'.cell = o.cell := by
  unfold Outbound.borrow at h
  split at h
  · cases h; rfl
  · cases h; rfl
  · split at h <;> cases h
    rfl
  · cases h

/-- A step of the association, as its outbound sees it. -/
theorem Knows.change {m : Option Mark} {packets calls : List Packet}
    {last : Option (Poll (Except String ℕ))} {polls : List (Packet × Poll (Except String ℕ))}
    (h : Knows (s.slot ob) packets last) (h_change : Change ob s s' m calls polls)
    (h_live : Live s') : Knows (s'.slot ob) (packets ++ (m.bind Mark.packet).toList)
      ((m.bind Mark.sendAnswer).or last) := by
  cases h_change with
  | kept _ slot_eq =>
    rw [slot_eq]
    exact (List.append_nil packets).symm ▸ h
  | died dead => exact (dead h_live).elim
  | @opened packet _ slot_eq slot_eq' =>
    rw [slot_eq] at h
    cases h
    rw [slot_eq']
    exact .opening packet
  | @entered packet _ slot_eq slot_eq' =>
    rw [slot_eq] at h
    cases h
    rw [slot_eq']
    exact .held rfl (List.mem_singleton.mpr rfl)
  | @queued packet o _ slot_eq _ slot_eq' =>
    rw [slot_eq] at h
    rw [slot_eq']
    -- a packet in a cell has come, and the one in it now has come last
    cases h with
    | held stage_eq _ =>
      exact .held stage_eq (List.mem_append_right _ (List.mem_singleton.mpr rfl))
  | @dropped packet o _ slot_eq _ slot_eq' =>
    rw [slot_eq] at h
    rw [slot_eq']
    cases h with
    | held stage_eq mem => exact .held stage_eq (List.mem_append_left _ mem)
  | @wrote o o' call answer _ slot_eq borrow_eq slot_eq' =>
    rw [slot_eq] at h
    rw [slot_eq']
    cases h with
    | held _ mem =>
      have h_cell : (o'.answered answer).cell = o.cell := by
        rw [← cell_of_borrow borrow_eq]
        match answer with
        | .pending | .ready (.ok _) | .ready (.error _) => rfl
      refine .held ?_ (List.mem_append_left _ (h_cell.symm ▸ mem))
      match answer with
      | .pending | .ready (.ok _) | .ready (.error _) => rfl

/-- What is known of an outbound while the association lives. -/
theorem knows_of_run (h : D.run as = some s) (h_live : Live s) (ob : String) :
    Knows (s.slot ob) (D.arrivals ob as) (D.lastAnswer ob as) := by
  refine run_induction
    (P := fun as s => Live s → Knows (s.slot ob) (D.arrivals ob as) (D.lastAnswer ob as))
    ?_ ?_ h h_live
  · intro _
    exact Knows.absent
  intro as m a m' h_run ih h_step h_live'
  obtain ⟨calls, polls, h_change, _⟩ := change_of_step h_run h_step ob
  rcases h_change.live_or with ⟨h_live, _⟩ | ⟨h_dead, _⟩
  · rw [arrivals_concat, lastAnswer_concat]
    exact (ih h_live).change h_change h_live'
  · exact (h_dead h_live').elim

/-- A stream can be built for the packet. -/
def Buildable (D : Socks5UdpDatagram) (ob : String) (packet : Packet) (W : World) : Prop :=
  ∃ builder stream, D.innerMap.lookup ob = some builder ∧
    D.buildFor builder W packet.1 = .ok stream

/-- An action that ends the receive task: a datagram that it cannot make a packet of, or one that
is the first for its outbound and for which no stream can be built. -/
def Ends (D : Socks5UdpDatagram) (before : List Action) : Action → Prop
  | .recv item W =>
    (∃ e, D.route item = .error e) ∨ ∃ ob packet, D.route item = .ok (some (ob, packet)) ∧
      D.arrivals ob before = [] ∧ ¬ D.Buildable ob packet W
  | _ => False

/-- No datagram has ended the receive task. -/
def Unharmed (D : Socks5UdpDatagram) (as : List Action) : Prop :=
  AtEach (fun before a => ¬ D.Ends before a) as

/-- A datagram for an outbound whose `send_to` is pending, while datagrams are received. -/
def Hurries (D : Socks5UdpDatagram) (before : List Action) : Action → Prop
  | .recv item _ => ∃ ob packet, D.route item = .ok (some (ob, packet)) ∧ D.Unharmed before ∧
      D.lastAnswer ob before = some .pending
  | _ => False

/-- No datagram comes for an outbound between a pending poll of its `send_to` and the one that
returns. -/
def Unhurried (D : Socks5UdpDatagram) (as : List Action) : Prop :=
  AtEach (fun before a => ¬ D.Hurries before a) as

/-- The receive task blocks the thread in `tx.send`, and the write task that it waits for is
suspended in `send_to`. -/
def Deadlocked (s : Association) : Prop :=
  ∃ ob o, s.recv = .blocked ob ∧ s.nat.lookup ob = some o ∧ o.stage = .sending

/-- What the actions taken so far say of the receive task. -/
inductive Reception (D : Socks5UdpDatagram) (as : List Action) (s : Association) : Prop
  | listening (recv_eq : s.recv = .listening) (unharmed : D.Unharmed as)
      (unhurried : D.Unhurried as)
  | building {ob : String} {builder : ChainStreamBuilder} {packet : Packet} {W : World}
      (recv_eq : s.recv = .building ob builder packet W)
      (innerMap_eq : D.innerMap.lookup ob = some builder)
      (unharmed : D.Unharmed as ↔ D.Buildable ob packet W) (unhurried : D.Unhurried as)
  | stopped (recv_eq : s.recv = .stopped) (harmed : ¬ D.Unharmed as) (unhurried : D.Unhurried as)
  | blocked (deadlocked : Deadlocked s) (hurried : ¬ D.Unhurried as)
  | closed (recv_eq : s.recv = .closed) (unhurried : D.Unhurried as)

/-- The other actions end and hurry nothing. -/
theorem unharmed_concat (h : ∀ item W, a ≠ .recv item W) :
    D.Unharmed (as ++ [a]) ↔ D.Unharmed as := by
  refine atEach_concat.trans (and_iff_left fun h_ends => ?_)
  cases a with
  | recv item W => exact h item W rfl
  | built | write | close => exact h_ends

theorem unhurried_concat (h : ∀ item W, a ≠ .recv item W) :
    D.Unhurried (as ++ [a]) ↔ D.Unhurried as := by
  refine atEach_concat.trans (and_iff_left fun h_hurries => ?_)
  cases a with
  | recv item W => exact h item W rfl
  | built | write | close => exact h_hurries

/-- A datagram that comes when no other has to be sent hurries nothing. -/
theorem Unhurried.concat (h : D.Unhurried as) (h_a : ¬ D.Hurries as a) : D.Unhurried (as ++ [a]) :=
  atEach_concat.mpr ⟨h, h_a⟩

theorem Unharmed.concat (h : D.Unharmed as) (h_a : ¬ D.Ends as a) : D.Unharmed (as ++ [a]) :=
  atEach_concat.mpr ⟨h, h_a⟩

theorem buildable_iff {builder : ChainStreamBuilder} {packet : Packet} {W : World}
    (h : D.innerMap.lookup ob = some builder) :
    D.Buildable ob packet W ↔ ∃ stream, D.buildFor builder W packet.1 = .ok stream := by
  constructor
  · rintro ⟨builder', stream, h_map, h_build⟩
    obtain rfl := Option.some.inj (h.symm.trans h_map)
    exact ⟨stream, h_build⟩
  · rintro ⟨stream, h_build⟩
    exact ⟨builder, stream, h, h_build⟩

/-- While no datagram has ended the receive task, one hurries when `send_to` of its outbound is
pending. -/
theorem hurries_iff {item : Received} {W : World} {packet : Packet}
    (h_route : D.route item = .ok (some (ob, packet))) (h : D.Unharmed as) :
    D.Hurries as (.recv item W) ↔ D.lastAnswer ob as = some .pending := by
  constructor
  · rintro ⟨ob', packet', h_route', _, h_last⟩
    cases h_route.symm.trans h_route'
    exact h_last
  · exact fun h_last => ⟨ob, packet, h_route, h, h_last⟩

/-- A datagram with a packet ends the receive task when it is the first for its outbound and no
stream can be built. -/
theorem ends_iff {item : Received} {W : World} {packet : Packet}
    (h_route : D.route item = .ok (some (ob, packet))) :
    D.Ends as (.recv item W) ↔ D.arrivals ob as = [] ∧ ¬ D.Buildable ob packet W := by
  constructor
  · rintro (⟨e, h_error⟩ | ⟨ob', packet', h_route', h_ends⟩)
    · cases h_route.symm.trans h_error
    · cases h_route.symm.trans h_route'
      exact h_ends
  · exact fun h => Or.inr ⟨ob, packet, h_route, h⟩

/-- The outbound of a packet, while the receive task listens. -/
theorem knows_lookup (h_run : D.run as = some s) (h_recv : s.recv = .listening) {o : Outbound}
    (h_nat : s.nat.lookup ob = some o) :
    o.stage = stageAfter (D.lastAnswer ob as) ∧ D.arrivals ob as ≠ [] := by
  have h_knows := knows_of_run h_run (Or.inl h_recv) ob
  rw [Association.slot_of_some h_nat] at h_knows
  cases h_knows with
  | held stage_eq mem => exact ⟨stage_eq, List.ne_nil_of_mem mem⟩

theorem knows_absent (h_run : D.run as = some s) (h_recv : s.recv = .listening)
    (h_nat : s.nat.lookup ob = none) : D.arrivals ob as = [] ∧ D.lastAnswer ob as = none := by
  have h_knows := knows_of_run h_run (Or.inl h_recv) ob
  rw [Association.slot_of_listening h_nat h_recv] at h_knows
  generalize h_packets : D.arrivals ob as = packets, h_last : D.lastAnswer ob as = last at h_knows
  cases h_knows
  exact ⟨rfl, rfl⟩

/-- A receive task that listens has met no datagram that ends or blocks it. -/
theorem Reception.of_listening (h : Reception D as s) (h_recv : s.recv = .listening) :
    D.Unharmed as ∧ D.Unhurried as := by
  cases h with
  | listening _ unharmed unhurried => exact ⟨unharmed, unhurried⟩
  | building recv_eq | stopped recv_eq | closed recv_eq => cases recv_eq.symm.trans h_recv
  | blocked deadlocked =>
    obtain ⟨ob, o, recv_eq, _⟩ := deadlocked
    cases recv_eq.symm.trans h_recv

/-- A datagram for an outbound whose task is at rest. -/
theorem reception_at_rest (h_run : D.run as = some s) (h_recv : s.recv = .listening)
    (h_unharmed : D.Unharmed as) (h_unhurried : D.Unhurried as) {item : Received} {W : World}
    {packet : Packet} {o : Outbound} (h_route : D.route item = .ok (some (ob, packet)))
    (h_nat : s.nat.lookup ob = some o) (h_stage : o.stage ≠ .sending) :
    D.Unharmed (as ++ [.recv item W]) ∧ D.Unhurried (as ++ [.recv item W]) := by
  obtain ⟨stage_eq, h_arrivals⟩ := knows_lookup h_run h_recv h_nat
  constructor
  · exact h_unharmed.concat fun h_ends => h_arrivals ((ends_iff h_route).mp h_ends).1
  · refine h_unhurried.concat fun h_hurries => h_stage ?_
    rw [stage_eq, (hurries_iff h_route h_unharmed).mp h_hurries]
    rfl

/-- A datagram that comes to a task that listens. -/
theorem reception_of_listening (h_run : D.run as = some s) (h_recv : s.recv = .listening)
    (h_unharmed : D.Unharmed as) (h_unhurried : D.Unhurried as) {item : Received} {W : World}
    (h : D.Stepped s (.recv item W) s') : Reception D (as ++ [.recv item W]) s' := by
  cases h with
  | skipped _ route_eq =>
    refine .listening h_recv (h_unharmed.concat ?_) (h_unhurried.concat ?_)
    · rintro (⟨e, h_route⟩ | ⟨ob, packet, h_route, _⟩) <;> cases route_eq.symm.trans h_route
    · rintro ⟨ob, packet, h_route, _⟩
      cases route_eq.symm.trans h_route
  | @refused _ _ e _ route_eq =>
    refine .stopped rfl (fun h => (atEach_concat.mp h).2 (Or.inl ⟨e, route_eq⟩))
      (h_unhurried.concat ?_)
    rintro ⟨ob, packet, h_route, _⟩
    cases route_eq.symm.trans h_route
  | @missing _ _ ob packet _ route_eq nat_eq innerMap_eq =>
    obtain ⟨h_arrivals, h_last⟩ := knows_absent h_run h_recv nat_eq
    refine .stopped rfl (fun h => (atEach_concat.mp h).2 ((ends_iff route_eq).mpr ⟨h_arrivals, ?_⟩))
      (h_unhurried.concat ?_)
    · rintro ⟨builder, stream, h_map, _⟩
      cases innerMap_eq.symm.trans h_map
    · rw [hurries_iff route_eq h_unharmed, h_last]
      exact fun h => (by cases h)
  | @opened _ _ ob packet builder _ route_eq nat_eq innerMap_eq =>
    obtain ⟨h_arrivals, h_last⟩ := knows_absent h_run h_recv nat_eq
    refine .building rfl innerMap_eq ?_ (h_unhurried.concat ?_)
    · refine atEach_concat.trans ((and_iff_right h_unharmed).trans ?_)
      rw [ends_iff route_eq, and_iff_right h_arrivals, not_not]
    · rw [hurries_iff route_eq h_unharmed, h_last]
      exact fun h => (by cases h)
  | @queued _ _ ob packet o _ route_eq nat_eq stage_eq =>
    obtain ⟨h_unharmed', h_unhurried'⟩ := reception_at_rest h_run h_recv h_unharmed h_unhurried
      route_eq nat_eq fun h => (by rw [h] at stage_eq; rcases stage_eq with h | h <;> cases h)
    exact .listening h_recv h_unharmed' h_unhurried'
  | @dropped _ _ ob packet o _ route_eq nat_eq stage_eq =>
    obtain ⟨h_unharmed', h_unhurried'⟩ := reception_at_rest h_run h_recv h_unharmed h_unhurried
      route_eq nat_eq fun h => (by rw [h] at stage_eq; cases stage_eq)
    exact .listening h_recv h_unharmed' h_unhurried'
  | @blocked _ _ ob packet o _ route_eq nat_eq stage_eq =>
    -- the guard is held, and the answer that left the task so was a pending one
    obtain ⟨stage_eq', _⟩ := knows_lookup h_run h_recv nat_eq
    have h_last := stageAfter_eq_sending.mp (stage_eq'.symm.trans stage_eq)
    refine .blocked ⟨ob, o, rfl, nat_eq, stage_eq⟩ fun h => ?_
    exact (atEach_concat.mp h).2 ((hurries_iff route_eq h_unharmed).mpr h_last)
  | unread dead =>
    rcases dead with h | ⟨_, h⟩ <;> cases h_recv.symm.trans h

/-- A datagram that comes when nobody listens. -/
theorem reception_of_unread (h : Reception D as s) {item : Received} {W : World}
    (h_recv : s.recv ≠ .listening) (h_step : D.Stepped s (.recv item W) s') :
    Reception D (as ++ [.recv item W]) s' := by
  -- the other steps of this action need a task that listens
  cases h_step with
  | skipped listening _ | refused listening _ | missing listening _ _ _ | opened listening _ _ _
  | queued listening _ _ _ | dropped listening _ _ _ | blocked listening _ _ _ =>
    exact (h_recv listening).elim
  | unread dead =>
    cases h with
    | listening recv_eq _ _ => exact (h_recv recv_eq).elim
    | building recv_eq _ _ _ => rcases dead with h | ⟨_, h⟩ <;> cases recv_eq.symm.trans h
    | stopped recv_eq harmed unhurried =>
      refine .stopped recv_eq (fun h => harmed h.of_append) (unhurried.concat ?_)
      rintro ⟨ob, packet, _, h_unharmed, _⟩
      exact harmed h_unharmed
    | blocked deadlocked hurried => exact .blocked deadlocked fun h => hurried h.of_append
    | closed recv_eq _ => rcases dead with h | ⟨_, h⟩ <;> cases recv_eq.symm.trans h

/-- A stream that has been built. -/
theorem reception_of_built (h : Reception D as s) (h_step : D.Stepped s .built s') :
    Reception D (as ++ [.built]) s' := by
  have h_same : D.Unharmed (as ++ [.built]) ↔ D.Unharmed as :=
    unharmed_concat fun _ _ h => by cases h
  have h_same' : D.Unhurried (as ++ [.built]) ↔ D.Unhurried as :=
    unhurried_concat fun _ _ h => by cases h
  -- only a task that was building goes on, and how depends on the chain
  cases h_step with
  | entered building build_eq =>
    cases h with
    | building recv_eq innerMap_eq unharmed unhurried =>
      cases recv_eq.symm.trans building
      have h_build := (buildable_iff innerMap_eq).mpr ⟨_, build_eq⟩
      exact .listening rfl (h_same.mpr (unharmed.mpr h_build)) (h_same'.mpr unhurried)
    | listening recv_eq | stopped recv_eq | closed recv_eq => cases recv_eq.symm.trans building
    | blocked deadlocked _ =>
      obtain ⟨ob, o, recv_eq, _⟩ := deadlocked
      cases recv_eq.symm.trans building
  | failed building build_eq =>
    cases h with
    | building recv_eq innerMap_eq unharmed unhurried =>
      cases recv_eq.symm.trans building
      refine .stopped rfl (fun h => ?_) (h_same'.mpr unhurried)
      obtain ⟨stream, h_build⟩ := (buildable_iff innerMap_eq).mp (unharmed.mp (h_same.mp h))
      cases build_eq.symm.trans h_build
    | listening recv_eq | stopped recv_eq | closed recv_eq => cases recv_eq.symm.trans building
    | blocked deadlocked _ =>
      obtain ⟨ob, o, recv_eq, _⟩ := deadlocked
      cases recv_eq.symm.trans building

/-- A poll of a write task. -/
theorem reception_of_write (h_run : D.run as = some s) (h : Reception D as s) {ob : String}
    {answer : Poll (Except String ℕ)} (h_step : D.Stepped s (.write ob answer) s') :
    Reception D (as ++ [.write ob answer]) s' := by
  -- an action that brings no datagram harms nothing
  have h_same : D.Unharmed (as ++ [.write ob answer]) ↔ D.Unharmed as :=
    unharmed_concat fun _ _ h => by cases h
  have h_same' : D.Unhurried (as ++ [.write ob answer]) ↔ D.Unhurried as :=
    unhurried_concat fun _ _ h => by cases h
  cases h_step with
  | wrote runs nat_eq _ =>
    have h_live := live_of_lookup h_run runs nat_eq
    cases h with
    | listening recv_eq unharmed unhurried =>
      exact .listening recv_eq (h_same.mpr unharmed) (h_same'.mpr unhurried)
    | building recv_eq innerMap_eq unharmed unhurried =>
      exact .building recv_eq innerMap_eq (h_same.trans unharmed) (h_same'.mpr unhurried)
    | stopped recv_eq => exact (not_live_of_stopped recv_eq h_live).elim
    | closed recv_eq => exact (not_live_of_closed recv_eq h_live).elim
    | blocked deadlocked _ =>
      obtain ⟨ob, o, recv_eq, _⟩ := deadlocked
      exact (runs ob recv_eq).elim

/-- Where the receive task is tells what has come before. -/
theorem reception_of_run (h : D.run as = some s) : Reception D as s := by
  refine run_induction (P := fun as s => Reception D as s)
    (.listening rfl atEach_nil atEach_nil) ?_ h
  intro as m a m' h_run ih h_step
  have h_stepped := stepped_of_step h_step
  -- one lemma for each action that the association may take
  cases a with
  | recv item W =>
    by_cases h_recv : m.recv = .listening
    · obtain ⟨h_unharmed, h_unhurried⟩ := ih.of_listening h_recv
      exact reception_of_listening h_run h_recv h_unharmed h_unhurried h_stepped
    · exact reception_of_unread ih h_recv h_stepped
  | built => exact reception_of_built ih h_stepped
  | write ob answer => exact reception_of_write h_run ih h_stepped
  | close =>
    cases h_stepped with
    | closed runs _ =>
      refine .closed rfl ((unhurried_concat fun _ _ h => by cases h).mpr ?_)
      cases ih with
      | listening _ _ unhurried | building _ _ _ unhurried | stopped _ _ unhurried
      | closed _ unhurried => exact unhurried
      | blocked deadlocked _ =>
        obtain ⟨ob, o, recv_eq, _⟩ := deadlocked
        exact (runs ob recv_eq).elim

/-- **The thread deadlocks** exactly in the runs in which a datagram comes for an outbound
whose `send_to` is pending. -/
theorem udp_deadlocked_iff (h_run : D.run as = some s) : Deadlocked s ↔ ¬ D.Unhurried as := by
  have h_none {r : RecvStage} (h_recv : s.recv = r) (h_ne : ∀ ob, r ≠ .blocked ob) :
      ¬ Deadlocked s := by
    rintro ⟨ob, o, h_blocked, _⟩
    exact h_ne ob (h_recv.symm.trans h_blocked)
  cases reception_of_run h_run with
  | listening recv_eq _ unhurried | building recv_eq _ _ unhurried | stopped recv_eq _ unhurried
  | closed recv_eq unhurried =>
    exact ⟨fun h => (h_none recv_eq (fun _ h => by cases h) h).elim, fun h => (h unhurried).elim⟩
  | blocked deadlocked hurried => exact ⟨fun _ => hurried, fun _ => deadlocked⟩

theorem udp_deadlocked_iff_inTurn :
    ∃ s, directOnly.run inTurn = some s ∧ (Deadlocked s ↔ ¬ directOnly.Unhurried inTurn) :=
  ⟨_, rfl, udp_deadlocked_iff rfl⟩

/-- The socket of the outbound is not ready for the first datagram when the second comes. -/
theorem udp_deadlocks :
    ∃ s, directOnly.run [.recv (datagramTo 1 [7]) .calm, .built, .write "direct" .pending,
      .recv (datagramTo 2 [8]) .calm] = some s ∧ Deadlocked s :=
  ⟨_, rfl, "direct", _, rfl, rfl, rfl⟩

end Socks5UdpDatagram

end V2ray
