import V2rayRust.Lib.Poll
import V2rayRust.Lib.Shared
import V2rayRust.Proxy.Address

/-!
# The halves of a stream

`split_ext` of `proxy/udp.rs` cuts a stream into a half for reading and one for writing, which
two tasks own. Every poll of a half takes the lock of `Inner` for as long as it lasts, and does
not wait for it: `poll_lock` wakes its own task and answers pending. The halves are `Shared`
between two threads, whatever the stream; in an association both tasks are on one thread, where
no poll is refused and the halves are the stream itself (`splitExt_oneThread`).
-/

namespace V2ray

/-- What implements `ProxyUdpStream`: what each poll makes of the stream, and its answer. A poll
is given what the network does in the meantime. -/
structure ProxyUdpStream (σ ν : Type) where
  pollRecvFrom : ν → ℕ → σ → σ × Poll (Except String (List UInt8 × Address))
  pollRead : ν → ℕ → σ → σ × Poll (Except String (List UInt8))
  pollSendTo : ν → List UInt8 → Address → σ → σ × Poll (Except String ℕ)
  pollWrite : ν → List UInt8 → σ → σ × Poll (Except String ℕ)
  pollFlush : ν → σ → σ × Poll (Except String Unit)
  pollShutdown : ν → σ → σ × Poll (Except String Unit)

/-- `ReadHalfExt` and `WriteHalfExt` -/
inductive Half
  | read
  | write
  deriving DecidableEq

/-- A poll of a half, with its arguments. -/
inductive HalfPoll (ν : Type)
  | recvFrom (net : ν) (room : ℕ)
  | read (net : ν) (room : ℕ)
  | sendTo (net : ν) (buf : List UInt8) (target : Address)
  | write (net : ν) (buf : List UInt8)
  | flush (net : ν)
  | shutdown (net : ν)

inductive HalfAnswer
  | received (answer : Poll (Except String (List UInt8 × Address)))
  | bytes (answer : Poll (Except String (List UInt8)))
  | size (answer : Poll (Except String ℕ))
  | unit (answer : Poll (Except String Unit))

namespace HalfPoll

variable {ν : Type}

def half : HalfPoll ν → Half
  | recvFrom .. | read .. => .read
  | sendTo .. | write .. | flush _ | shutdown _ => .write

/-- What `ready!(self.inner.poll_lock(cx))` returns if the lock is taken. -/
def pending : HalfPoll ν → HalfAnswer
  | recvFrom .. => .received .pending
  | read .. => .bytes .pending
  | sendTo .. | write .. => .size .pending
  | flush _ | shutdown _ => .unit .pending

end HalfPoll

/-- The same poll of the stream itself. -/
def ProxyUdpStream.poll {σ ν : Type} (P : ProxyUdpStream σ ν) : HalfPoll ν → σ → σ × HalfAnswer
  | .recvFrom net room, stream => (P.pollRecvFrom net room stream).map id .received
  | .read net room, stream => (P.pollRead net room stream).map id .bytes
  | .sendTo net buf target, stream => (P.pollSendTo net buf target stream).map id .size
  | .write net buf, stream => (P.pollWrite net buf stream).map id .size
  | .flush net, stream => (P.pollFlush net stream).map id .unit
  | .shutdown net, stream => (P.pollShutdown net stream).map id .unit

/-- `Inner`, and where its halves are. An `attempt` is the `compare_exchange` of `poll_lock`; the
stream is polled between `start` and `finish`; and `leave` drops the `Guard` and returns. -/
abbrev Inner (σ ν : Type) := Shared Half σ (HalfPoll ν) HalfAnswer

section

variable {σ ν : Type} (P : ProxyUdpStream σ ν)

def splitExt (stream : σ) : Inner σ ν := Shared.fresh stream

namespace Inner

def step : Inner σ ν → Move Half (HalfPoll ν) → Option (Inner σ ν) :=
  Shared.step HalfPoll.half P.poll

/-- What the polls of a half have returned. -/
def told (s : Inner σ ν) (half : Half) : List HalfAnswer :=
  (s.returned.filter (·.1.half = half)).map fun x => x.2.getD x.1.pending

end Inner

/-- The halves have not disturbed each other, and do not keep each other waiting. -/
structure Inner.Undisturbed (stream : σ) (s : Inner σ ν) : Prop where
  /-- at most one half is at the stream -/
  alone : ∀ half half', s.place half ≠ .idle → s.place half' ≠ .idle → half = half'
  /-- the stream, and its answers, are those of its polls one after the other -/
  replay_eq : Shared.replay P.poll stream (s.done.map Prod.fst) = (s.object, s.done.map Prod.snd)
  /-- a half has been told the answers to its own polls, in order -/
  answers_eq : ∀ half, s.answersOf HalfPoll.half half ++ (s.place half).unreturned =
    s.doneBy HalfPoll.half half
  /-- a half that is at the stream can go on, and comes nearer to its return -/
  goes_on : ∀ half, s.place half ≠ .idle → ∃ m s', Shared.mover HalfPoll.half m = half ∧
    Inner.step P s m = some s' ∧ (s'.place half).rank + 1 = (s.place half).rank

/-- **The halves of a stream do not disturb each other**, on whatever threads they are polled, and
a poll is refused only while the other half is at the stream. -/
theorem splitExt_linearizable (stream : σ) {ms : List (Move Half (HalfPoll ν))} {s : Inner σ ν}
    (h : runFrom (Inner.step P) (splitExt stream) ms = some s) :
    Inner.Undisturbed P stream s ∧
      ∀ before op after m, ms = before ++ .attempt op :: after →
        runFrom (Inner.step P) (splitExt stream) before = some m → m.locked = true →
          ∃ half, half ≠ op.half ∧ m.place half ≠ .idle := by
  have h_orderly := Shared.orderly_of_run h
  refine ⟨⟨h_orderly.alone, h_orderly.replay_eq, h_orderly.answers_eq, ?_⟩, ?_⟩
  · intro half h_busy
    exact Shared.exists_step h_busy
  · rintro before op after m rfl h_before h_locked
    -- the attempt is made in `m`, so its own half is idle there
    obtain ⟨m', h_m', h_rest⟩ := runFrom_append.mp h
    cases h_before.symm.trans h_m'
    obtain ⟨m'', h_step, -⟩ := runFrom_cons.mp h_rest
    have h_idle : m.place op.half = .idle := by
      cases Shared.moved_of_step h_step with
      | refused idle _ | locked idle _ => exact idle
    exact (Shared.orderly_of_run h_before).refused h_idle h_locked

/-- A stream that counts its polls. -/
def ProxyUdpStream.counting : ProxyUdpStream ℕ Unit where
  pollRecvFrom _ _ n := (n + 1, .pending)
  pollRead _ _ n := (n + 1, .pending)
  pollSendTo _ buf _ n := (n + 1, .ready (.ok buf.length))
  pollWrite _ buf n := (n + 1, .ready (.ok buf.length))
  pollFlush _ n := (n + 1, .ready (.ok ()))
  pollShutdown _ n := (n + 1, .ready (.ok ()))

/-- A read that is refused while a write is at the stream, and comes again. -/
theorem splitExt_linearizable_refused : ∃ s : Inner ℕ Unit,
    runFrom (Inner.step .counting) (splitExt 0)
      [.attempt (.write () [1]), .start .write, .attempt (.read () 8), .finish .write,
        .leave .write, .attempt (.read () 8), .start .read, .finish .read] = some s ∧
    s.object = 2 ∧ s.Undisturbed .counting 0 :=
  have h : runFrom (Inner.step .counting) (splitExt 0)
      [.attempt (.write () [1]), .start .write, .attempt (.read () 8), .finish .write,
        .leave .write, .attempt (.read () 8), .start .read, .finish .read] = some _ := rfl
  ⟨_, h, rfl, (splitExt_linearizable .counting 0 h).1⟩

/-! ### On one thread -/

/-- The polls of a list, each from its attempt to its return. -/
def wholePolls (polls : List (HalfPoll ν)) : List (Move Half (HalfPoll ν)) :=
  polls.flatMap (Shared.whole HalfPoll.half)

/-- **On one thread the lock makes no difference**: polls that are not interrupted are answered
by the stream itself, whatever their order. -/
theorem splitExt_oneThread (stream : σ) (polls : List (HalfPoll ν)) :
    ∃ s, runFrom (Inner.step P) (splitExt stream) (wholePolls polls) = some s ∧
      s.object = (Shared.replay P.poll stream polls).1 ∧
      ∀ half, s.told half = ((polls.zip (Shared.replay P.poll stream polls).2).filter
        (·.1.half = half)).map Prod.snd := by
  have h_quiet : (splitExt stream : Inner σ ν).Quiet := ⟨rfl, fun _ => rfl⟩
  obtain ⟨s, h_run, -, h_object, h_returned⟩ :=
    Shared.run_wholes HalfPoll.half P.poll h_quiet polls
  refine ⟨s, h_run, h_object, ?_⟩
  intro half
  have h_some : s.returned =
      (polls.zip (Shared.replay P.poll stream polls).2).map fun x => (x.1, some x.2) := by
    rw [h_returned, List.zip_map_right]
    rfl
  unfold Inner.told
  rw [h_some, List.filter_map, List.map_map]
  rfl

end

end V2ray
