import V2rayRust.Lib.WriteFault
import V2rayRust.Proxy.AddressDisplay

/-!
# The request header of simple-obfs

The write side of `proxy/simpleobfs/http.rs`: `HttpObfs` writes the first slice behind a request
header, and hands on the others. Both are written from one buffer, and how that ends is not looked
at: the first slice is reported as written also after a failure (`tells_iff`).
-/

namespace V2ray

/-- What `priv_poll_write` puts into its request: what it draws, and what the `http` crate makes of
the URI, which it has accepted, and of the headers. -/
structure ObfsRequest where
  minor : ℕ
  patch : ℕ
  /-- `URL_SAFE` of the salt -/
  key : String
  path : String
  /-- the entries of a `HeaderMap`, in the order in which it gives them -/
  iter : List (String × String) → List (String × String)

namespace ObfsRequest

def headers (r : ObfsRequest) (host : Address) (len : ℕ) : List (String × String) :=
  [("user-agent", "curl/7." ++ toString r.minor ++ "." ++ toString r.patch),
    ("upgrade", "websocket"), ("connection", "Upgrade"), ("sec-websocket-key", r.key),
    ("content-length", toString len), ("host", host.text)]

/-- The text of the request for a first slice of `len` bytes. -/
def text (r : ObfsRequest) (host : Address) (len : ℕ) : String :=
  "GET" ++ " " ++ r.path ++ " " ++ "HTTP/1.1" ++ "\r\n" ++
    (r.iter (r.headers host len)).foldl (fun text (k, v) => text ++ k ++ ": " ++ v ++ "\r\n") "" ++
    "\r\n"

def head (r : ObfsRequest) (host : Address) (len : ℕ) : List UInt8 :=
  (r.text host len).toUTF8.toList

end ObfsRequest

namespace HttpObfs

/-- The state of `priv_poll_write`: at its start, at the `co_await` of the buffer, in the loop. -/
inductive WriteState
  | start
  | first
  | streaming
  deriving DecidableEq, Repr

/-- `HttpObfs`, as far as it writes. -/
structure Writer where
  host : Address
  buffer : List UInt8
  pos : ℕ
  writeState : WriteState

def Writer.new (host : Address) : Writer := ⟨host, [], 0, .start⟩

/-- What a poll of the writer leaves, with the answers that its calls of `poll_write` got. -/
structure ObfsPoll where
  state : Writer
  events : List WriteEvent
  result : Poll (Except String ℕ)
  out : List UInt8
  answers : List WriteEvent

/-- The `co_await` of `write_buffer_data`, and what comes after it. -/
def writeFirst (w : Writer) (ws : List WriteEvent) (buf : List UInt8) : ObfsPoll :=
  let x := writeData w.buffer w.pos ws
  let answers := writeAnswers w.buffer w.pos ws
  match x.result with
  | .pending => ⟨{ w with pos := x.pos, writeState := .first }, x.events, .pending, x.out, answers⟩
  -- an error is dropped here
  | .ready _ =>
    ⟨{ w with pos := x.pos, writeState := .streaming }, x.events, .ready (.ok buf.length), x.out,
      answers⟩

/-- A turn of the loop: one call of `poll_write` below. -/
def writeOn (w : Writer) (ws : List WriteEvent) (buf : List UInt8) : ObfsPoll :=
  match ws with
  | [] => ⟨w, [], .pending, [], [.pending]⟩
  | .pending :: ws => ⟨w, ws, .pending, [], [.pending]⟩
  | .err message :: ws => ⟨w, ws, .ready (.error message), [], [.err message]⟩
  | .accept n :: ws => ⟨w, ws, .ready (.ok (buf.take n).length), buf.take n, [.accept n]⟩

/-- `priv_poll_write` -/
def privPollWrite (r : ObfsRequest) (w : Writer) (ws : List WriteEvent) (buf : List UInt8) :
    ObfsPoll :=
  match w.writeState with
  | .start => writeFirst { w with buffer := w.buffer ++ r.head w.host buf.length ++ buf } ws buf
  | .first => writeFirst w ws buf
  | .streaming => writeOn w ws buf

/-- What the polls for these slices should tell, when `out` has been written for the slice that
comes next: a poll that returns `Ok(n)` has written `n` bytes of it, for the `first` slice behind
the header, and a poll that sees a write of the first slice fail is an error. -/
def Tells (r : ObfsRequest) : Bool → ℕ → Writer → List WriteEvent → List UInt8 →
    List (List UInt8) → Prop
  | _, 0, _, _, _, _ => True
  | _, _, _, _, _, [] => True
  | first, polls + 1, w, ws, out, buf :: slices =>
    let x := privPollWrite r w ws buf
    let header := if first then r.head w.host buf.length else []
    (first = true → (∃ a ∈ x.answers, ¬ a.Works) → ∃ message, x.result = .ready (.error message)) ∧
    (∀ n, x.result = .ready (.ok n) → n ≤ buf.length ∧ out ++ x.out = header ++ buf.take n) ∧
    match x.result with
    | .pending => Tells r first polls x.state x.events (out ++ x.out) (buf :: slices)
    | .ready (.ok _) => Tells r false polls x.state x.events [] slices
    | .ready (.error _) => Tells r first polls x.state x.events [] slices

variable {r : ObfsRequest} {w : Writer} {ws : List WriteEvent} {buf out : List UInt8}
  {slices : List (List UInt8)} {polls : ℕ} {first : Bool}

/-- **Later slices** are handed on, with all that is told of them. -/
theorem tells_streaming (h_state : w.writeState = .streaming) :
    Tells r false polls w ws [] slices := by
  induction polls generalizing w ws slices with
  | zero => trivial
  | succ polls ih =>
    cases slices with
    | nil => trivial
    | cons buf slices =>
      have h_poll : privPollWrite r w ws buf = writeOn w ws buf := by
        unfold privPollWrite
        rw [h_state]
      unfold Tells
      dsimp only
      rw [h_poll]
      refine ⟨fun h => Bool.noConfusion h, ?_⟩
      -- an error and a pending write say nothing of bytes that were written
      match ws with
      | [] => exact ⟨(by rintro n ⟨⟩), ih h_state⟩
      | .pending :: ws => exact ⟨(by rintro n ⟨⟩), ih h_state⟩
      | .err message :: ws => exact ⟨(by rintro n ⟨⟩), ih h_state⟩
      | .accept n :: ws =>
        refine ⟨?_, ih h_state⟩
        rintro m ⟨⟩
        refine ⟨List.length_take_le' n buf, ?_⟩
        exact List.take_eq_take_min.trans (by rw [List.length_take]; rfl)

/-- **The first slice**, when the buffer has the header and the slice: all is told exactly if no
write of the buffer fails. -/
theorem tells_first_iff (h_state : w.writeState = .first)
    (h_buffer : w.buffer = r.head w.host buf.length ++ buf) :
    Tells r true polls w ws (w.buffer.take w.pos) (buf :: slices) ↔
      ∀ after, ¬ BreaksOff polls (w.buffer.length - w.pos) ws after := by
  induction polls generalizing w ws with
  | zero =>
    refine iff_of_true trivial fun after h_breaks => ?_
    exact absurd h_breaks.polls_pos (Nat.lt_irrefl 0)
  | succ polls ih =>
    have h_poll : privPollWrite r w ws buf = writeFirst w ws buf := by
      unfold privPollWrite
      rw [h_state]
    unfold Tells
    dsimp only
    rw [h_poll]
    unfold writeFirst
    dsimp only
    have h_call := writeBreaks w.buffer w.pos ws
    generalize writeAnswers w.buffer w.pos ws = answers at h_call ⊢
    generalize writeData w.buffer w.pos ws = x at h_call ⊢
    cases h_call with
    | @pending ws' pos' taken works lt out_eq breaks_iff =>
      have h_next : Tells r true polls { w with pos := pos', writeState := .first } ws'
          (w.buffer.take pos') (buf :: slices) ↔
            ∀ after, ¬ BreaksOff polls (w.buffer.length - pos') ws' after := ih rfl h_buffer
      dsimp only at h_next ⊢
      rw [out_eq, h_next]
      constructor
      · rintro ⟨-, -, h_rest⟩ after h_breaks
        exact h_rest after ((breaks_iff polls after).mp h_breaks)
      · intro h_none
        refine ⟨fun _ ⟨a, h_a, h_fails⟩ => absurd (works a h_a) h_fails, (by rintro n ⟨⟩), ?_⟩
        exact fun after h_breaks => h_none after ((breaks_iff polls after).mpr h_breaks)
    | @done ws' pos' taken works out_eq whole =>
      refine iff_of_true ⟨?_, ?_, tells_streaming rfl⟩ (whole _)
      · exact fun _ ⟨a, h_a, h_fails⟩ => absurd (works a h_a) h_fails
      · rintro n ⟨⟩
        refine ⟨Nat.le_refl _, ?_⟩
        rw [out_eq, h_buffer, if_pos rfl, List.take_length]
    | @failed ws' message pos' taken fails lt out_eq breaks_iff =>
      -- the failure is not told
      refine iff_of_false (fun ⟨h_told, _⟩ => ?_) fun h_none => ?_
      · obtain ⟨message, h_error⟩ := h_told rfl fails
        cases h_error
      · exact h_none ws' ((breaks_iff polls ws').mpr rfl)

/-- **The writer tells of every failure** exactly if no write fails while the header and the first
slice are being written. -/
theorem tells_iff (r : ObfsRequest) (host : Address) (buf : List UInt8) (slices : List (List UInt8))
    (polls : ℕ) (ws : List WriteEvent) :
    Tells r true polls (Writer.new host) ws [] (buf :: slices) ↔
      ∀ after, ¬ BreaksOff polls (r.head host buf.length ++ buf).length ws after := by
  cases polls with
  | zero =>
    refine iff_of_true trivial fun after h_breaks => ?_
    exact absurd h_breaks.polls_pos (Nat.lt_irrefl 0)
  | succ polls =>
    have h_first :
        Tells r true (polls + 1) ⟨host, r.head host buf.length ++ buf, 0, .first⟩ ws []
          (buf :: slices) ↔
        ∀ after, ¬ BreaksOff (polls + 1) (r.head host buf.length ++ buf).length ws after :=
      tells_first_iff rfl rfl
    -- the first poll fills the buffer and goes on with it
    exact h_first

/-- The first write fails, and the slice is reported as written. -/
theorem tells_lost :
    let r : ObfsRequest := ⟨58, 1, "AAAAAAAAAAAAAAAAAAAAAA==", "/", id⟩
    let w := Writer.new (.domainNameAddress "a" 80)
    let x := privPollWrite r w [.err "reset"] [7]
    x.result = .ready (.ok 1) ∧ x.out = [] ∧ x.answers = [.err "reset"] ∧
      ¬ Tells r true 1 w [.err "reset"] [] [[7]] := by
  intro r w x
  have h_x : x = ⟨⟨w.host, r.head w.host 1 ++ [7], 0, .streaming⟩, [], .ready (.ok 1), [],
      [.err "reset"]⟩ := by
    change writeFirst ⟨w.host, r.head w.host 1 ++ [7], 0, .start⟩ _ _ = _
    have h_lt : 0 < (r.head w.host 1 ++ [7]).length := by simp
    unfold writeFirst
    simp only [writeData, writeAnswers, if_pos h_lt]
    rfl
  refine ⟨by rw [h_x], by rw [h_x], by rw [h_x], fun h_tells => ?_⟩
  obtain ⟨h_told, _⟩ := h_tells
  change (true = true → (∃ a ∈ x.answers, ¬ a.Works) →
    ∃ message, x.result = .ready (.error message)) at h_told
  rw [h_x] at h_told
  obtain ⟨message, h_error⟩ := h_told rfl ⟨_, List.mem_singleton.mpr rfl, id⟩
  cases h_error

end HttpObfs

end V2ray
