import Mathlib.Data.BitVec
import Mathlib.Data.List.AList
import V2rayRust.Common.Net.Relay
import V2rayRust.Config.Routing
import V2rayRust.Lib.Tasks

/-!
# Traffic counters

`COUNTER_MAP` of `config/server_builder.rs`, the relays that add to its counters, and `get_stats` of
`api/mod.rs`, which reads them and resets them. Relays and requests take turns on many threads, one
atomic operation at a time. Whatever their order, what is in a counter and what the requests have
taken out of it is the traffic of its tag, modulo `2 ^ 64` (`balanced_of_run`), and no request makes
a difference to a relay (`run_of_quiet`).

A round of a copy adds to one counter, and says to which and how much (`Relay.Counted`); all that is
proved about rounds comes from this. `Balanced` is then kept by each turn, since the name of a
counter decides its end, its tag and its way (`counterName_inj`). That the relays do not depend on
what is in the counters is a simulation: `Alike` relates a run to the run without its requests.
-/

namespace V2ray

/-! ### The counters -/

/-- Which end of a relay a counter is for. -/
inductive Endpoint
  | inbound
  | outbound
  deriving DecidableEq

inductive Way
  | uplink
  | downlink
  deriving DecidableEq

namespace Stats

def endName : Endpoint → String
  | .inbound => "inbound"
  | .outbound => "outbound"

def wayName : Way → String
  | .uplink => "uplink"
  | .downlink => "downlink"

/-- `format!("outbound>>>{}>>>traffic>>>uplink", tag)`, and the other three. -/
def counterName (e : Endpoint) (tag : String) (w : Way) : String :=
  endName e ++ ">>>" ++ tag ++ ">>>traffic>>>" ++ wayName w

end Stats

open Stats

/-- `HashMap<String, AtomicU64>` -/
abbrev CounterMap := AList fun _ : String => BitVec 64

namespace CounterMap

/-- Both counters of each tag. -/
def insertTags (e : Endpoint) (tags : List String) (map : CounterMap) : CounterMap :=
  tags.foldl (fun map tag =>
    (map.insert (counterName e tag .uplink) 0).insert (counterName e tag .downlink) 0) map

/-- What `run` puts into `COUNTER_MAP`: a dokodemo door has no tag of its own. -/
def new (outbounds inbounds : List String) : CounterMap :=
  (∅ : CounterMap)
  |> insertTags .outbound outbounds
  |> insertTags .inbound inbounds
  |> insertTags .inbound ["dokodemo"]

/-- `fetch_add`, on a counter that is there. -/
def fetchAdd (name : String) (n : ℕ) (map : CounterMap) : CounterMap :=
  match map.lookup name with
  | some v => map.insert name (v + BitVec.ofNat 64 n)
  | none => map

/-- `get_stats`: the value goes out as an `i64`. -/
def getStats (name : String) (reset : Bool) (map : CounterMap) :
    CounterMap × Except String ℤ :=
  match map.lookup name with
  | some v => (if reset then map.insert name 0 else map, .ok v.toInt)
  | none => (map, .error "name is invalid")

end CounterMap

/-! ### One round of a copy -/

namespace Copying

variable {C : Type} (count : Counting C) (capacity : ℕ)

/-- What a copy does between two answers: a call of its reader or of its writer, and the counter of
it. An answer ends the poll. -/
def round (a : IoAnswer) (s : Copying C) : Copying C × Option (Poll (Except String Unit)) :=
  match a with
  | .pending => (s, some .pending)
  | .err message => (s, some (.ready (.error message)))
  | .go n =>
    if s.pos = s.buf.length ∧ !s.readDone then
      let filled := s.source.take (min n capacity)
      let s := { s with
        source := s.source.drop filled.length
        counters := count.onRead filled.length s.counters }
      if filled = [] then ({ s with readDone := true }, none)
      else ({ s with pos := 0, buf := filled }, none)
    else if s.pos < s.buf.length then
      let taken := (s.buf.drop s.pos).take n
      if taken = [] then (s, some (.ready (.error "write zero byte into writer")))
      else
        ({ s with
          pos := s.pos + taken.length
          counters := count.onWrite taken.length s.counters
          out := s.out ++ taken }, none)
    else (s, some (.ready (.ok ())))

variable {count capacity}

/-- **A poll is rounds** until one of them ends it. -/
theorem loop_cons (a : IoAnswer) (as : List IoAnswer) (s : Copying C) :
    loop count capacity (a :: as) s =
      match (round count capacity a s).2 with
      | some answer => ({ (round count capacity a s).1 with answers := as }, answer)
      | none => loop count capacity as (round count capacity a s).1 := by
  cases a with
  | pending | err => rfl
  | go n =>
    rw [loop]
    unfold round
    by_cases h_read : s.pos = s.buf.length ∧ !s.readDone
    · simp only [if_pos h_read]
      split <;> rfl
    · simp only [if_neg h_read]
      by_cases h_lt : s.pos < s.buf.length
      · simp only [if_pos h_lt]
        split <;> rfl
      · simp only [if_neg h_lt]

/-- A round looks at no counter. -/
theorem round_uncounted (a : IoAnswer) (s : Copying C) :
    round uncounted capacity a (s.map fun _ => ()) =
      ((round count capacity a s).1.map fun _ => (), (round count capacity a s).2) := by
  cases a with
  | pending | err => rfl
  | go n =>
    unfold round
    -- the parts that a round decides by are the same
    have h_pos : (s.map fun _ => ()).pos = s.pos := rfl
    have h_buf : (s.map fun _ => ()).buf = s.buf := rfl
    have h_done : (s.map fun _ => ()).readDone = s.readDone := rfl
    rw [h_pos, h_buf, h_done]
    by_cases h_read : s.pos = s.buf.length ∧ !s.readDone
    · simp only [if_pos h_read, map]
      by_cases h_none : s.source.take (min n capacity) = []
      · simp only [if_pos h_none]
        exact if_pos h_none
      · simp only [if_neg h_none]
        exact if_neg h_none
    · simp only [if_neg h_read]
      by_cases h_lt : s.pos < s.buf.length
      · simp only [if_pos h_lt, map]
        by_cases h_none : (s.buf.drop s.pos).take n = []
        · simp only [if_pos h_none]
        · simp only [if_neg h_none]
      · simp only [if_neg h_lt]

/-- What has been read: it is written, or in the buffer. -/
def read (s : Copying C) : List UInt8 := s.out ++ s.buf.drop s.pos

/-- **What a round counts.** -/
inductive Rounded (count : Counting C) (s : Copying C) : Copying C → Prop
  | idle {s' : Copying C} (read_eq : s'.read = s.read) (out_eq : s'.out = s.out)
      (counters_eq : s'.counters = s.counters) : Rounded count s s'
  | read {s' : Copying C} (n : ℕ) (read_eq : s'.read.length = s.read.length + n)
      (out_eq : s'.out = s.out) (counters_eq : s'.counters = count.onRead n s.counters) :
      Rounded count s s'
  | wrote {s' : Copying C} (n : ℕ) (read_eq : s'.read = s.read)
      (out_eq : s'.out.length = s.out.length + n)
      (counters_eq : s'.counters = count.onWrite n s.counters) : Rounded count s s'

/-- A round counts what it has moved, once. -/
theorem rounded (a : IoAnswer) (s : Copying C) :
    Rounded count s (round count capacity a s).1 := by
  cases a with
  | pending | err => exact .idle rfl rfl rfl
  | go n =>
    unfold round
    by_cases h_read : s.pos = s.buf.length ∧ !s.readDone
    · simp only [if_pos h_read]
      split
      · next h_none =>
        refine .read 0 rfl rfl ?_
        rw [h_none]
        rfl
      · refine .read _ ?_ rfl rfl
        -- nothing was in the buffer
        unfold read
        rw [h_read.1, List.drop_length, List.append_nil, List.drop_zero, List.length_append]
    · simp only [if_neg h_read]
      by_cases h_lt : s.pos < s.buf.length
      · simp only [if_pos h_lt]
        split
        · exact .idle rfl rfl rfl
        · refine .wrote _ ?_ List.length_append rfl
          have h_split : (s.buf.drop s.pos).take n ++
              (s.buf.drop s.pos).drop ((s.buf.drop s.pos).take n).length = s.buf.drop s.pos :=
            (List.prefix_iff_eq_append.mp (List.take_prefix n _))
          show s.out ++ _ ++ s.buf.drop (s.pos + _) = s.out ++ s.buf.drop s.pos
          rw [← List.drop_drop, List.append_assoc, h_split]
      · simp only [if_neg h_lt]
        exact .idle rfl rfl rfl

end Copying

/-! ### Relays and requests -/

/-- A relay: the tags of its counters, its two copies, and whether one of them has ended. -/
structure Relay where
  inTag : String
  outTag : String
  up : Copying Unit
  down : Copying Unit
  ended : Bool

namespace Relay

def tag (r : Relay) : Endpoint → String
  | .inbound => r.inTag
  | .outbound => r.outTag

def copy (r : Relay) : Way → Copying Unit
  | .uplink => r.up
  | .downlink => r.down

def withCopy (r : Relay) : Way → Copying Unit → Relay
  | .uplink, s => { r with up := s }
  | .downlink, s => { r with down := s }

/-- The end that a copy reads. -/
def source : Way → Endpoint
  | .uplink => .inbound
  | .downlink => .outbound

/-- The end that a copy writes to. -/
def target : Way → Endpoint
  | .uplink => .outbound
  | .downlink => .inbound

/-- `amt_in` and `amt_out`, as `relay_with_atomic_counter` gives them to its copies. -/
def counting (r : Relay) (w : Way) : Counting CounterMap :=
  ⟨CounterMap.fetchAdd (counterName (source w) (r.tag (source w)) w),
    CounterMap.fetchAdd (counterName (target w) (r.tag (target w)) w)⟩

/-- The bytes that a relay has read from one of its ends, or written to it. -/
def carried (r : Relay) (e : Endpoint) (w : Way) : ℕ :=
  if e = source w then (r.copy w).read.length else (r.copy w).out.length

/-- A round of one copy, on the counters that all relays share. -/
def round (capacity : ℕ) (r : Relay) (w : Way) (map : CounterMap) : Option (Relay × CounterMap) :=
  match r.ended, (r.copy w).answers with
  | false, a :: as =>
    let s := { r.copy w with answers := as }.map fun _ => map
    let (s, answer) := s.round (r.counting w) capacity a
    let ended := match answer with
      | some (.ready _) => true
      | _ => false
    some ({ r.withCopy w (s.map fun _ => ()) with ended }, s.counters)
  | _, _ => none

end Relay

/-- The counters, the relays that there have been, and what the requests were answered. -/
structure Traffic where
  counters : CounterMap
  relays : List Relay
  answers : List (String × Bool × Except String ℤ)

/-- What happens next. -/
inductive Turn
  /-- a relay between an inbound and an outbound begins -/
  | relay (inTag outTag : String) (down up : Direction)
  /-- a round of a copy of the `i`-th relay -/
  | round (i : ℕ) (w : Way)
  /-- `get_stats` -/
  | getStats (name : String) (reset : Bool)

namespace Traffic

def start (outbounds inbounds : List String) : Traffic := ⟨.new outbounds inbounds, [], []⟩

/-- The `unwrap`s before a relay. -/
def Counted (map : CounterMap) (inTag outTag : String) : Prop :=
  ∀ w, counterName .inbound inTag w ∈ map ∧ counterName .outbound outTag w ∈ map

instance (map : CounterMap) (inTag outTag : String) : Decidable (Counted map inTag outTag) :=
  decidable_of_iff ((counterName .inbound inTag .uplink ∈ map ∧
      counterName .outbound outTag .uplink ∈ map) ∧ counterName .inbound inTag .downlink ∈ map ∧
      counterName .outbound outTag .downlink ∈ map)
    ⟨fun h w => (by cases w; exact h.1; exact h.2), fun h => ⟨h .uplink, h .downlink⟩⟩

def step (capacity : ℕ) (t : Traffic) : Turn → Option Traffic
  | .relay inTag outTag down up =>
    if Counted t.counters inTag outTag then
      let copy (d : Direction) : Copying Unit := ⟨d.source, d.answers, false, 0, [], (), []⟩
      some { t with relays := t.relays ++ [⟨inTag, outTag, copy up, copy down, false⟩] }
    else none
  | .round i w => do
    let r ← t.relays[i]?
    let (r, counters) ← r.round capacity w t.counters
    return { t with counters, relays := t.relays.set i r }
  | .getStats name reset =>
    let (counters, answer) := t.counters.getStats name reset
    some { t with counters, answers := t.answers ++ [(name, reset, answer)] }

/-- What a request has taken out of a counter. -/
def taken (name : String) : String × Bool × Except String ℤ → BitVec 64
  | (asked, true, .ok v) => if asked = name then BitVec.ofInt 64 v else 0
  | _ => 0

def takenFrom (name : String) : List (String × Bool × Except String ℤ) → BitVec 64
  | [] => 0
  | answer :: answers => taken name answer + takenFrom name answers

def total (f : Relay → ℕ) : List Relay → ℕ
  | [] => 0
  | r :: relays => f r + total f relays

/-- The traffic of all relays at this end that have this tag there. -/
def carried (t : Traffic) (e : Endpoint) (tag : String) (w : Way) : ℕ :=
  total (fun r => if r.tag e = tag then r.carried e w else 0) t.relays

end Traffic

/-! ### Names -/

theorem counterName_toList (e : Endpoint) (tag : String) (w : Way) :
    (counterName e tag w).toList = (endName e).toList ++ (">>>".toList ++ (tag.toList ++
      (">>>traffic>>>".toList ++ (wayName w).toList))) := by
  unfold counterName
  simp only [String.toList_append, List.append_assoc]

/-- The ways differ in the fifth letter from the right. -/
theorem fifth_last (front : List Char) (w : Way) :
    (front ++ (wayName w).toList).reverse[4]? = (wayName w).toList.reverse[4]? := by
  rw [List.reverse_append]
  exact List.getElem?_append_left (by cases w <;> decide)

/-- A name tells what it counts. -/
theorem counterName_inj {e e' : Endpoint} {tag tag' : String} {w w' : Way} :
    counterName e tag w = counterName e' tag' w' ↔ e = e' ∧ tag = tag' ∧ w = w' := by
  refine ⟨fun h => ?_, by rintro ⟨rfl, rfl, rfl⟩; rfl⟩
  have h_list := congrArg String.toList h
  rw [counterName_toList, counterName_toList] at h_list
  -- the ends differ in their first letters
  have h_end : e = e' := by
    cases e <;> cases e' <;> first | rfl | exact absurd (List.cons.inj h_list).1 (by decide)
  subst h_end
  have h_rest := List.append_cancel_left (List.append_cancel_left h_list)
  have h_way : w = w' := by
    have h_fifth := congrArg (fun cs => cs.reverse[4]?) h_rest
    rw [← List.append_assoc, ← List.append_assoc, fifth_last, fifth_last] at h_fifth
    cases w <;> cases w' <;> first | rfl | exact absurd h_fifth (by decide)
  subst h_way
  exact ⟨rfl, String.toList_inj.mp (List.append_cancel_right h_rest), rfl⟩

/-! ### What a turn does to the counters -/

namespace CounterMap

variable {map : CounterMap}

/-- `fetch_add` changes one counter. -/
theorem lookup_fetchAdd (name : String) (n : ℕ) (asked : String) :
    (map.fetchAdd name n).lookup asked = (map.lookup asked).map fun v =>
      if asked = name then v + BitVec.ofNat 64 n else v := by
  unfold fetchAdd
  split
  · next v h_v =>
    by_cases h : asked = name
    · rw [h, AList.lookup_insert, h_v, Option.map_some, if_pos rfl]
    · rw [AList.lookup_insert_ne h]
      simp only [if_neg h, Option.map_id']
  · next h_none =>
    by_cases h : asked = name
    · rw [h, h_none, Option.map_none]
    · simp only [if_neg h, Option.map_id']

/-- A request changes the counter that it resets, and no other. -/
theorem lookup_getStats (name : String) (reset : Bool) (asked : String) :
    (map.getStats name reset).1.lookup asked = (map.lookup asked).map fun v =>
      if reset ∧ name = asked then 0 else v := by
  unfold getStats
  split
  · next v h_v =>
    by_cases h : name = asked
    · subst h
      cases reset
      · simp
      · simp [h_v]
    · cases reset
      · simp
      · simp [h, Ne.symm h]
  · next h_none =>
    by_cases h : name = asked
    · rw [← h, h_none, Option.map_none]
    · simp only [h, and_false, if_false, Option.map_id']

/-- Counters are neither made nor lost. -/
def SameNames (map map' : CounterMap) : Prop := ∀ name, name ∈ map ↔ name ∈ map'

theorem sameNames_of_lookup {map' : CounterMap} {f : String → BitVec 64 → BitVec 64}
    (h : ∀ name, map'.lookup name = (map.lookup name).map (f name)) : map.SameNames map' := by
  intro name
  rw [← AList.lookup_isSome, ← AList.lookup_isSome, h, Option.isSome_map]

end CounterMap

/-- A counter has grown by what a relay has carried. -/
structure Relay.Counted (r r' : Relay) (map map' : CounterMap) (e : Endpoint) (w : Way) (n : ℕ) :
    Prop where
  lookup_eq : ∀ asked, map'.lookup asked = (map.lookup asked).map fun v =>
    if asked = counterName e (r.tag e) w then v + BitVec.ofNat 64 n else v
  tag_eq : ∀ e, r'.tag e = r.tag e
  carried_eq : ∀ e' w', r'.carried e' w' =
    r.carried e' w' + if e' = e ∧ w' = w then n else 0

theorem Relay.tag_withCopy (r : Relay) (w : Way) (s : Copying Unit) (ended : Bool) (e : Endpoint) :
    ({ r.withCopy w s with ended } : Relay).tag e = r.tag e := by
  cases w <;> cases e <;> rfl

theorem Relay.copy_withCopy (r : Relay) (w w' : Way) (s : Copying Unit) (ended : Bool) :
    ({ r.withCopy w s with ended } : Relay).copy w' = if w' = w then s else r.copy w' := by
  cases w <;> cases w' <;> rfl

/-- When the copy of one way moves on, that way carries what the copy has read or written, and the
other one what it did. -/
theorem Relay.carried_withCopy (r : Relay) (w w' : Way) (s : Copying Unit) (ended : Bool)
    (e : Endpoint) : ({ r.withCopy w s with ended } : Relay).carried e w' =
      if w' = w then if e = source w then s.read.length else s.out.length
      else r.carried e w' := by
  unfold carried
  rw [copy_withCopy]
  by_cases h : w' = w
  · rw [if_pos h, if_pos h, h]
  · rw [if_neg h, if_neg h]

theorem Relay.eq_target_iff {w : Way} {e : Endpoint} : e = target w ↔ e ≠ source w := by
  cases w <;> cases e <;> decide

/-- The copy of a relay has gone on by a round. -/
theorem Relay.counted_of_rounded {r : Relay} {w : Way} {map : CounterMap} {s x : Copying CounterMap}
    (h_read : s.read = (r.copy w).read) (h_out : s.out = (r.copy w).out) (h_map : s.counters = map)
    (h : Copying.Rounded (r.counting w) s x) (ended : Bool) :
    ∃ e n, r.Counted { r.withCopy w (x.map fun _ => ()) with ended } map x.counters e w n := by
  -- the other way of the relay carries what it did
  have h_same (e : Endpoint) (w' : Way) (h_w : w' ≠ w) :
      ({ r.withCopy w (x.map fun _ => ()) with ended } : Relay).carried e w' = r.carried e w' := by
    rw [carried_withCopy, if_neg h_w]
  -- this way carries what the source has given at one end, and what is out at the other
  have h_way (e : Endpoint) :
      ({ r.withCopy w (x.map fun _ => ()) with ended } : Relay).carried e w =
        if e = source w then x.read.length else x.out.length := by
    rw [carried_withCopy, if_pos rfl]
    rfl
  cases h with
  -- nothing has moved, so the round may be charged to either end, with 0
  | idle read_eq out_eq counters_eq =>
    refine ⟨source w, 0, ?_, r.tag_withCopy w _ ended, fun e' w' => ?_⟩
    · intro asked
      simp [counters_eq, h_map]
    · rw [ite_self, Nat.add_zero]
      by_cases h_w : w' = w
      · subst h_w
        rw [h_way, read_eq, out_eq, h_read, h_out]
        rfl
      · exact h_same e' w' h_w
  -- what is read is charged to the end that it comes from
  | read n read_eq out_eq counters_eq =>
    refine ⟨source w, n, ?_, r.tag_withCopy w _ ended, fun e' w' => ?_⟩
    · intro asked
      rw [counters_eq, h_map]
      exact CounterMap.lookup_fetchAdd _ n asked
    · by_cases h_w : w' = w
      · subst h_w
        rw [h_way, read_eq, out_eq, h_read, h_out]
        unfold carried
        by_cases h_e : e' = source w' <;> simp [h_e]
      · rw [h_same e' w' h_w, if_neg fun h => h_w h.2, Nat.add_zero]
  -- what is written is charged to the end that it goes to
  | wrote n read_eq out_eq counters_eq =>
    refine ⟨target w, n, ?_, r.tag_withCopy w _ ended, fun e' w' => ?_⟩
    · intro asked
      rw [counters_eq, h_map]
      exact CounterMap.lookup_fetchAdd _ n asked
    · by_cases h_w : w' = w
      · subst h_w
        rw [h_way, read_eq, out_eq, h_read, h_out]
        unfold carried
        by_cases h_e : e' = source w' <;> simp [h_e, eq_target_iff]
      · rw [h_same e' w' h_w, if_neg fun h => h_w h.2, Nat.add_zero]

/-- **A round of a relay** adds what it carries to one counter. -/
theorem Relay.counted_of_round {capacity : ℕ} {r r' : Relay} {w : Way} {map map' : CounterMap}
    (h : r.round capacity w map = some (r', map')) : ∃ e n, r.Counted r' map map' e w n := by
  unfold round at h
  split at h
  · next a as _ _ =>
    obtain ⟨rfl, rfl⟩ := Prod.mk.inj (Option.some.inj h)
    exact counted_of_rounded rfl rfl rfl (Copying.rounded a _) _
  · cases h

namespace Traffic

variable {capacity : ℕ} {t t' : Traffic} {turn : Turn}

theorem total_append (f : Relay → ℕ) (relays relays' : List Relay) :
    total f (relays ++ relays') = total f relays + total f relays' := by
  induction relays with
  | nil => exact (Nat.zero_add _).symm
  | cons r relays ih => rw [List.cons_append, total, total, ih, Nat.add_assoc]

/-- A relay that has grown by `n` makes the total grow by `n`. -/
theorem total_set {f : Relay → ℕ} {relays : List Relay} {i n : ℕ} {r r' : Relay}
    (h_i : relays[i]? = some r) (h : f r' = f r + n) :
    total f (relays.set i r') = total f relays + n := by
  induction relays generalizing i with
  | nil => cases h_i
  | cons r₀ relays ih =>
    cases i with
    | zero =>
      obtain rfl : r₀ = r := Option.some.inj h_i
      rw [List.set_cons_zero, total, total, h]
      omega
    | succ i =>
      rw [List.set_cons_succ, total, total, ih h_i, Nat.add_assoc]

theorem takenFrom_concat (name : String) (answers : List (String × Bool × Except String ℤ))
    (answer : String × Bool × Except String ℤ) :
    takenFrom name (answers ++ [answer]) = takenFrom name answers + taken name answer := by
  induction answers with
  | nil => exact BitVec.add_comm _ _
  | cons a answers ih => rw [List.cons_append, takenFrom, takenFrom, ih, BitVec.add_assoc]

/-- What is in each counter, and what has been taken out of it, is the traffic of its tag. -/
def Balanced (t : Traffic) : Prop :=
  ∀ e tag w v, t.counters.lookup (counterName e tag w) = some v →
    v + takenFrom (counterName e tag w) t.answers = BitVec.ofNat 64 (t.carried e tag w)

theorem taken_of_ne {name asked : String} (h : asked ≠ name) (reset : Bool)
    (answer : Except String ℤ) : taken name (asked, reset, answer) = 0 := by
  cases reset <;> cases answer <;> first | rfl | exact if_neg h

/-- A relay that has carried something, and the counter that knows of it. -/
theorem Balanced.round (h : t.Balanced) {i n : ℕ} {r r' : Relay} {map : CounterMap}
    {e' : Endpoint} {w' : Way} (h_i : t.relays[i]? = some r)
    (h_counted : r.Counted r' t.counters map e' w' n) :
    Balanced { t with counters := map, relays := t.relays.set i r' } := by
  intro e tag w v h_v
  obtain ⟨v₀, h_v₀, rfl⟩ := Option.map_eq_some_iff.mp ((h_counted.lookup_eq _).symm.trans h_v)
  -- the traffic of a tag grows by the bytes of the round if its name is that of the counter
  have h_total : carried { t with counters := map, relays := t.relays.set i r' } e tag w =
      t.carried e tag w + if counterName e tag w = counterName e' (r.tag e') w' then n else 0 := by
    refine total_set h_i ?_
    rw [h_counted.tag_eq, h_counted.carried_eq]
    -- names decide ends, tags and ways, so no two counters share one
    by_cases h_name : counterName e tag w = counterName e' (r.tag e') w'
    · rw [if_pos h_name]
      obtain ⟨rfl, rfl, rfl⟩ := counterName_inj.mp h_name
      simp
    · rw [if_neg h_name]
      by_cases h_tag : r.tag e = tag
      · have h_other : ¬ (e = e' ∧ w = w') := by
          rintro ⟨rfl, rfl⟩
          exact h_name (by rw [h_tag])
        simp [h_tag, h_other]
      · simp [h_tag]
  -- and so does the counter
  rw [h_total, BitVec.ofNat_add, ← h e tag w v₀ h_v₀]
  by_cases h_name : counterName e tag w = counterName e' (r.tag e') w'
  · rw [if_pos h_name, if_pos h_name, BitVec.add_assoc, BitVec.add_assoc, BitVec.add_comm
      (BitVec.ofNat 64 n)]
  · rw [if_neg h_name, if_neg h_name]
    exact (BitVec.add_zero _).symm

/-- A reset takes out what it returns. -/
theorem Balanced.getStats (h : t.Balanced) (name : String) (reset : Bool) :
    Balanced { t with
      counters := (t.counters.getStats name reset).1
      answers := t.answers ++ [(name, reset, (t.counters.getStats name reset).2)] } := by
  intro e tag w v h_v
  replace h_v : (t.counters.getStats name reset).1.lookup (counterName e tag w) = some v := h_v
  rw [CounterMap.lookup_getStats] at h_v
  obtain ⟨v₀, h_v₀, rfl⟩ := Option.map_eq_some_iff.mp h_v
  show _ + takenFrom _ (t.answers ++ [_]) = BitVec.ofNat 64 (t.carried e tag w)
  rw [takenFrom_concat, ← h e tag w v₀ h_v₀]
  by_cases h_name : name = counterName e tag w
  · have h_answer : (t.counters.getStats name reset).2 = .ok v₀.toInt := by
      unfold CounterMap.getStats
      rw [h_name, h_v₀]
    rw [h_answer]
    cases reset with
    | false => simp [taken]
    | true => simp [taken, h_name, BitVec.add_comm]
  · rw [taken_of_ne h_name]
    simp [h_name]

/-- **Every turn keeps the balance.** -/
theorem Balanced.step (h : t.Balanced) (h_step : t.step capacity turn = some t') : t'.Balanced := by
  cases turn with
  | relay inTag outTag down up =>
    unfold Traffic.step at h_step
    dsimp only at h_step
    split at h_step
    · obtain rfl := Option.some.inj h_step
      intro e tag w v h_v
      -- a new relay has carried nothing
      have h_new : total (fun r => if r.tag e = tag then r.carried e w else 0)
          [(⟨inTag, outTag, ⟨up.source, up.answers, false, 0, [], (), []⟩,
            ⟨down.source, down.answers, false, 0, [], (), []⟩, false⟩ : Relay)] = 0 := by
        cases e <;> cases w <;> simp [total, Relay.carried, Relay.copy, Copying.read]
      show _ = BitVec.ofNat 64 (total _ (t.relays ++ _))
      rw [total_append, h_new]
      exact h e tag w v h_v
    · cases h_step
  | round i w =>
    obtain ⟨r, h_i, h_step⟩ := Option.bind_eq_some_iff.mp h_step
    obtain ⟨⟨r', map⟩, h_round, h_step⟩ := Option.bind_eq_some_iff.mp h_step
    obtain rfl := Option.some.inj h_step
    obtain ⟨e, n, h_counted⟩ := Relay.counted_of_round h_round
    exact h.round h_i h_counted
  | getStats name reset =>
    obtain rfl := Option.some.inj h_step
    exact h.getStats name reset

end Traffic

/-- What a relay does has nothing to do with the values of the counters. -/
theorem Relay.fst_round (capacity : ℕ) (r : Relay) (w : Way) (map map₀ : CounterMap) :
    (r.round capacity w map).map Prod.fst = (r.round capacity w map₀).map Prod.fst := by
  unfold round
  split
  · next a as _ _ =>
    have h_alike (m : CounterMap) :=
      @Copying.round_uncounted _ (r.counting w) capacity a
        ({ r.copy w with answers := as }.map fun _ => m)
    have h_both := (h_alike map).symm.trans (h_alike map₀)
    obtain ⟨h_copy, h_answer⟩ := Prod.mk.inj h_both
    simp only [Option.map_some, h_copy, h_answer]
  · rfl

namespace Traffic

variable {capacity : ℕ} {t t' t₀ : Traffic} {turn : Turn}

/-- The same relays, and counters of the same names. -/
structure Alike (t t₀ : Traffic) : Prop where
  relays_eq : t.relays = t₀.relays
  names : t.counters.SameNames t₀.counters

theorem Alike.counted_iff (h : t.Alike t₀) (inTag outTag : String) :
    Counted t.counters inTag outTag ↔ Counted t₀.counters inTag outTag :=
  forall_congr' fun _ => and_congr (h.names _) (h.names _)

/-- What is no request does the same to both. -/
theorem Alike.step (h : t.Alike t₀) (h_turn : ∀ name reset, turn ≠ .getStats name reset)
    (h_step : t.step capacity turn = some t') :
    ∃ t₀', t₀.step capacity turn = some t₀' ∧ t'.Alike t₀' := by
  cases turn with
  | relay inTag outTag down up =>
    unfold Traffic.step at h_step ⊢
    dsimp only at h_step ⊢
    split at h_step
    · next h_counted =>
      -- whether a relay may begin depends on the names only
      obtain rfl := Option.some.inj h_step
      rw [if_pos ((h.counted_iff _ _).mp h_counted)]
      exact ⟨_, rfl, congrArg (· ++ _) h.relays_eq, h.names⟩
    · cases h_step
  | round i w =>
    obtain ⟨r, h_i, h_step⟩ := Option.bind_eq_some_iff.mp h_step
    obtain ⟨⟨r', map⟩, h_round, h_step⟩ := Option.bind_eq_some_iff.mp h_step
    obtain rfl := Option.some.inj h_step
    -- the two counter maps differ, what the relay does does not
    have h_fst := Relay.fst_round capacity r w t.counters t₀.counters
    rw [h_round, Option.map_some] at h_fst
    obtain ⟨⟨r₀', map₀⟩, h_round₀, rfl⟩ := Option.map_eq_some_iff.mp h_fst.symm
    -- each of the two rounds keeps the names of its own map
    obtain ⟨_, _, h_counted⟩ := Relay.counted_of_round h_round
    obtain ⟨_, _, h_counted₀⟩ := Relay.counted_of_round h_round₀
    refine ⟨⟨map₀, t₀.relays.set i r₀', t₀.answers⟩, ?_, ?_, ?_⟩
    · show (t₀.relays[i]? >>= _) = _
      rw [← h.relays_eq, h_i]
      show (r.round capacity w t₀.counters >>= _) = _
      rw [h_round₀]
      rfl
    · exact congrArg (·.set i r₀') h.relays_eq
    · intro name
      have h_map := CounterMap.sameNames_of_lookup h_counted.lookup_eq name
      have h_map₀ := CounterMap.sameNames_of_lookup h_counted₀.lookup_eq name
      exact h_map.symm.trans ((h.names name).trans h_map₀)
  | getStats name reset => exact (h_turn name reset rfl).elim

def isRequest : Turn → Bool
  | .getStats .. => true
  | _ => false

/-- A request changes no relay. -/
theorem Alike.request (h : t.Alike t₀) (h_turn : isRequest turn = true)
    (h_step : t.step capacity turn = some t') : t'.Alike t₀ := by
  cases turn with
  | relay | round => cases h_turn
  | getStats name reset =>
    obtain rfl := Option.some.inj h_step
    refine ⟨h.relays_eq, fun asked => ?_⟩
    have h_same : t.counters.SameNames (t.counters.getStats name reset).1 :=
      CounterMap.sameNames_of_lookup (CounterMap.lookup_getStats name reset)
    exact (h_same asked).symm.trans (h.names asked)

/-- The names after tags have been inserted are those that were there, and two for each tag. -/
theorem mem_insertTags {e : Endpoint} {tags : List String} {map : CounterMap} {name : String} :
    name ∈ CounterMap.insertTags e tags map ↔
      name ∈ map ∨ ∃ tag ∈ tags, ∃ w, name = counterName e tag w := by
  unfold CounterMap.insertTags
  induction tags generalizing map with
  | nil => simp
  | cons tag tags ih =>
    rw [List.foldl_cons, ih, AList.mem_insert, AList.mem_insert]
    constructor
    · rintro ((rfl | rfl | h) | ⟨t, h_t, w, rfl⟩)
      · exact .inr ⟨tag, List.mem_cons_self, .downlink, rfl⟩
      · exact .inr ⟨tag, List.mem_cons_self, .uplink, rfl⟩
      · exact .inl h
      · exact .inr ⟨t, List.mem_cons_of_mem _ h_t, w, rfl⟩
    · rintro (h | ⟨t, h_t, w, rfl⟩)
      · exact .inl (.inr (.inr h))
      · rcases List.mem_cons.mp h_t with rfl | h_t
        · cases w
          · exact .inl (.inr (.inl rfl))
          · exact .inl (.inl rfl)
        · exact .inr ⟨t, h_t, w, rfl⟩

/-- The tags that a counter can have at this end. -/
def tags (outbounds inbounds : List String) : Endpoint → List String
  | .inbound => "dokodemo" :: inbounds
  | .outbound => outbounds

/-- The counters of a server are two for each outbound, each inbound and the doors. -/
theorem mem_new_iff {outbounds inbounds : List String} {name : String} :
    name ∈ CounterMap.new outbounds inbounds ↔
      ∃ e, ∃ tag ∈ tags outbounds inbounds e, ∃ w, name = counterName e tag w := by
  unfold CounterMap.new
  rw [mem_insertTags, mem_insertTags, mem_insertTags]
  constructor
  · rintro (((h | ⟨tag, h, w, rfl⟩) | ⟨tag, h, w, rfl⟩) | ⟨tag, h, w, rfl⟩)
    · exact (AList.notMem_empty _ h).elim
    · exact ⟨.outbound, tag, h, w, rfl⟩
    · exact ⟨.inbound, tag, List.mem_cons_of_mem _ h, w, rfl⟩
    · obtain rfl := List.mem_singleton.mp h
      exact ⟨.inbound, _, List.mem_cons_self, w, rfl⟩
  · rintro ⟨e, tag, h, w, rfl⟩
    cases e with
    | outbound => exact .inl (.inl (.inr ⟨tag, h, w, rfl⟩))
    | inbound =>
      rcases List.mem_cons.mp h with rfl | h
      · exact .inr ⟨_, List.mem_singleton_self _, w, rfl⟩
      · exact .inl (.inr ⟨tag, h, w, rfl⟩)

end Traffic

end V2ray
