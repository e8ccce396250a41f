import V2rayRust.Lib.Base64
import V2rayRust.Proxy.Builder
import V2rayRust.Proxy.WebSocket

/-!
# Early data

`BinaryWsStreamWithEarlyData` of `proxy/websocket/ws_early_data.rs`: the first bytes that are
written go with the request of the WebSocket handshake, in a header and in base64, and are accepted
when the handshake has completed. Until then nothing can be read, flushed or shut down; after it
everything goes to the WebSocket stream.

`stream`, `req` and `ws_stream_future` are taken and filled in turn, and `early_data_len` is first
the most that the header may carry and then what it carries. The invariant (`Phase`) says which of
them are there before the first write, during the handshake and after it; every poll keeps it
(`phase_step`). It gives the accounting of all bytes that are accepted (`EarlySession.run_accounts`),
and that the write at which the handshake completes is accepted, with as many bytes as the header
may carry (`EarlySession.step_completes`).
-/

namespace V2ray

/-! ### Requests -/

namespace Request

/-- Names of headers are the same in any case. -/
def sameName (a b : String) : Bool := a.toLower = b.toLower

/-- `headers().get(name)`: the first value of that name. -/
def header (req : Request) (name : String) : Option String :=
  (req.headers.find? fun h => sameName h.1 name).map (·.2)

/-- The first value of that name is another one. -/
def setFirst (name value : String) : List (String × String) → List (String × String)
  | [] => []
  | h :: hs => if sameName h.1 name then (h.1, value) :: hs else h :: setFirst name value hs

/-- `*headers_mut().get_mut(name) = value` -/
def setHeader (req : Request) (name value : String) : Request :=
  { req with headers := setFirst name value req.headers }

/-- A header that is there can be set. -/
theorem header_setHeader {req : Request} {name : String} (h : (req.header name).isSome)
    (value : String) : (req.setHeader name value).header name = some value := by
  have h_first (hs : List (String × String)) (h : (hs.find? fun h => sameName h.1 name).isSome) :
      ((setFirst name value hs).find? fun h => sameName h.1 name).map (·.2) = some value := by
    induction hs with
    | nil => cases h
    | cons h' hs ih =>
      rw [setFirst]
      by_cases h_name : sameName h'.1 name = true
      · rw [if_pos h_name, List.find?_cons_of_pos (by exact h_name)]
        rfl
      · rw [if_neg h_name, List.find?_cons_of_neg (by exact h_name)]
        rw [List.find?_cons_of_neg (by exact h_name)] at h
        exact ih h
  rw [header, Option.isSome_map] at h
  exact h_first req.headers h

end Request

/-- What `HeaderValue::from_bytes` takes: no control characters but the tab. -/
def headerValueOk (value : String) : Bool :=
  value.toList.all fun c => (32 ≤ c.toNat && c.toNat ≠ 127) || c = '\t'

/-- `URL_SAFE_NO_PAD`, and the decoder of the server. -/
structure Codec where
  encode : List UInt8 → String
  decode : String → Option (List UInt8)

/-- What is encoded can be decoded, and is a header. -/
structure Codec.Lawful (C : Codec) : Prop where
  decode_encode : ∀ bytes, C.decode (C.encode bytes) = some bytes
  header_ok : ∀ bytes, headerValueOk (C.encode bytes)

/-- Base64 is a codec. -/
def base64 : Codec where
  encode bytes := String.ofList (Base64.encode bytes)
  decode text := Base64.decode text.toList

/-- Base64 decodes what it has encoded, and is a header. -/
theorem lawful_base64 : base64.Lawful where
  decode_encode bytes := by
    show Base64.decode (String.ofList (Base64.encode bytes)).toList = some bytes
    rw [String.toList_ofList]
    exact Base64.decode_encode bytes
  header_ok bytes := by
    have h_alphabet : Base64.alphabet.all
        (fun c => (32 ≤ c.toNat && c.toNat ≠ 127) || c = '\t') = true := by
      decide +kernel
    rw [headerValueOk, base64, String.toList_ofList, List.all_eq_true]
    exact fun c h_c =>
      List.all_eq_true.mp h_alphabet c (Base64.mem_alphabet_of_encode bytes c h_c)

/-! ### The stream -/

/-- `BoxProxyStream`: the stream that was given, or the one that the handshake has made of it. -/
inductive ProxyStream
  | io
  | ws (stream : BinaryWsStream)

/-- The future of `build_stream_impl`, with the stream it has taken. -/
structure Handshake where
  req : Request
  completed : Bool

/-- `BinaryWsStreamWithEarlyData`, less the configuration that it hands to the handshake. A waker is
the number of its task. -/
structure BinaryWsStreamWithEarlyData where
  stream : Option ProxyStream
  req : Option Request
  wsStreamFuture : Option Handshake
  earlyWaker : Option ℕ
  flushWaker : Option ℕ
  earlyDataHeaderName : String
  earlyDataLen : ℕ
  isWriteEarlyData : Bool

/-- A call that a poll makes. -/
inductive EarlyCall
  /-- a poll of the handshake with this request, and its answer -/
  | handshake (req : Request) (answer : Poll (Except String Unit))
  /-- a call on the stream below the WebSocket -/
  | io
  | ws (call : WsCall)

/-- What the world answers to the calls of one poll: the handshake, the stream below the WebSocket,
and the WebSocket. -/
structure EarlyAnswers where
  handshake : Poll (Except String Unit)
  ioRead : Poll (Except String (List UInt8))
  ioWrite : Poll (Except String ℕ)
  ioFlush : Poll (Except String Unit)
  ioShutdown : Poll (Except String Unit)
  ws : WsAnswers

/-- What a poll leaves: the stream, the calls it has made, the tasks it has woken, its result. -/
structure EarlyPoll (α : Type) where
  state : BinaryWsStreamWithEarlyData
  calls : List EarlyCall
  woken : List ℕ
  result : Poll (Except String α)

namespace BinaryWsStreamWithEarlyData

/-- `BinaryWsStreamWithEarlyData::new` -/
def new (req : Request) (earlyDataHeaderName : String) (earlyDataLen : ℕ) :
    BinaryWsStreamWithEarlyData :=
  { stream := some .io
    req := some req
    wsStreamFuture := none
    earlyWaker := none
    flushWaker := none
    earlyDataHeaderName := earlyDataHeaderName
    earlyDataLen := earlyDataLen
    isWriteEarlyData := false }

variable (C : Codec) (debug : Message → String) (a : EarlyAnswers)
  (s : BinaryWsStreamWithEarlyData)

/-- The handshake is polled: once it has completed, the early data are written. -/
def pollHandshake (f : Handshake) : Except Fault (EarlyPoll ℕ) :=
  if f.completed then .error .resumed
  else
    let calls := [.handshake f.req a.handshake]
    match a.handshake with
    | .pending => .ok ⟨s, calls, [], .pending⟩
    | .ready (.error e) =>
      .ok ⟨{ s with wsStreamFuture := some ⟨f.req, true⟩ }, calls, [], .ready (.error e)⟩
    | .ready (.ok ()) =>
      .ok
        { state :=
            { s with
              stream := some (.ws .new)
              wsStreamFuture := some ⟨f.req, true⟩
              isWriteEarlyData := true
              earlyWaker := none
              flushWaker := none }
          calls := calls
          woken := s.earlyWaker.toList ++ s.flushWaker.toList
          result := .ready (.ok s.earlyDataLen) }

/-- The request gets as much of `buf` as it may carry, and the handshake the request. -/
def startHandshake (buf : List UInt8) : Except Fault (BinaryWsStreamWithEarlyData × Handshake) := do
  let some req := s.req | throw (.unwrapNone "req")
  let (req, earlyDataLen) ←
    match req.header s.earlyDataHeaderName with
    | none => pure (req, s.earlyDataLen)
    | some _ => do
      let earlyDataLen := min s.earlyDataLen buf.length
      let headerValue := C.encode (buf.take earlyDataLen)
      if headerValueOk headerValue then
        pure (req.setHeader s.earlyDataHeaderName headerValue, earlyDataLen)
      else throw (.unwrapNone "base64 encode error")
  let some _ := s.stream | throw (.unwrapNone "stream")
  let f : Handshake := ⟨req, false⟩
  return ({ s with stream := none, req := none, wsStreamFuture := some f,
                   earlyDataLen := earlyDataLen }, f)

/-- `poll_write` -/
def pollWrite (buf : List UInt8) : Except Fault (EarlyPoll ℕ) :=
  if s.isWriteEarlyData then
    match s.stream with
    | none => .error .unreachable
    | some .io => .ok ⟨s, [.io], [], a.ioWrite⟩
    | some (.ws _) =>
      let (result, calls) := BinaryWsStream.pollWrite a.ws buf
      .ok ⟨s, calls.map .ws, [], result⟩
  else
    match s.wsStreamFuture with
    | some f => s.pollHandshake a f
    | none => do
      let (s, f) ← s.startHandshake C buf
      s.pollHandshake a f

/-- `poll_read`, with what it leaves of the messages to come and what it puts. -/
def pollRead (waker : ℕ) (es : List WsEvent) (room : ℕ) :
    Except Fault (EarlyPoll Unit × List WsEvent × List UInt8) :=
  if s.isWriteEarlyData then
    match s.stream with
    | none => .error .unreachable
    | some .io =>
      match a.ioRead with
      | .pending => .ok (⟨s, [.io], [], .pending⟩, es, [])
      | .ready (.error e) => .ok (⟨s, [.io], [], .ready (.error e)⟩, es, [])
      | .ready (.ok bytes) => .ok (⟨s, [.io], [], .ready (.ok ())⟩, es, bytes.take room)
    | some (.ws ws) =>
      let x := BinaryWsStream.pollRead debug ws es room
      let calls : List WsCall := if ws.readBuffer.isNone then [.next] else []
      .ok (⟨{ s with stream := some (.ws x.state) }, calls.map .ws, [], x.result⟩, x.events, x.put)
  else
    let earlyWaker := s.earlyWaker.getD waker
    .ok (⟨{ s with earlyWaker := some earlyWaker }, [], [], .pending⟩, es, [])

/-- `poll_flush` -/
def pollFlush (waker : ℕ) : Except Fault (EarlyPoll Unit) :=
  if s.isWriteEarlyData then
    match s.stream with
    | none => .error .unreachable
    | some .io => .ok ⟨s, [.io], [], a.ioFlush⟩
    | some (.ws _) =>
      let (result, calls) := BinaryWsStream.pollFlush a.ws
      .ok ⟨s, calls.map .ws, [], result⟩
  else
    let flushWaker := s.flushWaker.getD waker
    .ok ⟨{ s with flushWaker := some flushWaker }, [], [], .pending⟩

/-- `poll_shutdown`, after it has flushed what there was to flush. -/
def shutdownStream : Except Fault (EarlyPoll Unit) :=
  match s.stream with
  | none => .error .unreachable
  | some .io => .ok ⟨s, [.io], [], a.ioShutdown⟩
  | some (.ws _) =>
    let (result, calls) := BinaryWsStream.pollShutdown a.ws
    .ok ⟨s, calls.map .ws, [], result⟩

/-- `poll_shutdown` -/
def pollShutdown (waker : ℕ) : Except Fault (EarlyPoll Unit) :=
  if s.isWriteEarlyData then s.shutdownStream a
  else do
    let x ← s.pollFlush a waker
    match x.result with
    | .ready (.ok ()) =>
      let y ← x.state.shutdownStream a
      return { y with calls := x.calls ++ y.calls }
    | _ => return x

end BinaryWsStreamWithEarlyData

/-! ### Sessions -/

/-- The stream in use: the messages that will come, the calls that were made, the slice that the
writer has to poll again, and the writes that were accepted, each with its slice. -/
structure EarlySession where
  stream : BinaryWsStreamWithEarlyData
  incoming : List WsEvent
  calls : List EarlyCall
  again : Option (List UInt8)
  accepted : List (List UInt8 × ℕ)

/-- A poll. A write that is pending is polled with the same slice again; `buf` is the slice of a new
one. -/
inductive EarlyOp
  | write (buf : List UInt8)
  | read (room : ℕ)
  | flush
  | shutdown

/-- A poll by this task, and what the world answers. -/
structure EarlyStep where
  op : EarlyOp
  waker : ℕ
  answers : EarlyAnswers

namespace EarlySession

/-- The stream that `build_tcp` has made. -/
def start (req : Request) (earlyDataHeaderName : String) (earlyDataLen : ℕ)
    (incoming : List WsEvent) : EarlySession :=
  ⟨.new req earlyDataHeaderName earlyDataLen, incoming, [], none, []⟩

def step (C : Codec) (debug : Message → String) (p : EarlySession) (x : EarlyStep) :
    Except Fault EarlySession :=
  match x.op with
  | .write buf => do
    let buf := p.again.getD buf
    let y ← p.stream.pollWrite C x.answers buf
    let p := { p with stream := y.state, calls := p.calls ++ y.calls }
    match y.result with
    | .pending => return { p with again := some buf }
    | .ready (.error _) => return { p with again := none }
    | .ready (.ok n) => return { p with again := none, accepted := p.accepted ++ [(buf, n)] }
  | .read room => do
    let (y, incoming, _) ← p.stream.pollRead debug x.answers x.waker p.incoming room
    return { p with stream := y.state, incoming := incoming, calls := p.calls ++ y.calls }
  | .flush => do
    let y ← p.stream.pollFlush x.answers x.waker
    return { p with stream := y.state, calls := p.calls ++ y.calls }
  | .shutdown => do
    let y ← p.stream.pollShutdown x.answers x.waker
    return { p with stream := y.state, calls := p.calls ++ y.calls }

def run (C : Codec) (debug : Message → String) (p : EarlySession) (steps : List EarlyStep) :
    Except Fault EarlySession := steps.foldlM (step C debug) p

/-- The bytes `buf[..n]` of the writes that were accepted. -/
def acceptedBytes (p : EarlySession) : List UInt8 := p.accepted.flatMap fun w => w.1.take w.2

/-- The polls of the handshake that were pending. -/
def waiting (req : Request) (polls : ℕ) : List EarlyCall :=
  List.replicate polls (.handshake req .pending)

/-- The accounts of a stream. Before the handshake has completed, its polls are all calls that were
made, and nothing was accepted. Then the early data that the request carries and the binary messages
are what was accepted. -/
inductive Accounts (C : Codec) (name : String) (p : EarlySession) : Prop
  | waiting {req : Request} {polls : ℕ} (calls_eq : p.calls = waiting req polls)
      (none_accepted : p.accepted = [])
  | completed {req : Request} {polls : ℕ} {later : List WsCall} {value : String}
      {early : List UInt8}
      (calls_eq : p.calls =
        EarlySession.waiting req polls ++ .handshake req (.ready (.ok ())) :: later.map .ws)
      (header_eq : req.header name = some value) (decode_eq : C.decode value = some early)
      (accepted_eq : early ++ binaries later = p.acceptedBytes)

/-! ### Phases -/

variable {C : Codec} {debug : Message → String} {name : String} {p p' : EarlySession}
  {x : EarlyStep} {max : ℕ}

/-- The stream before it is written to, but for its wakers. -/
structure Fresh (name : String) (max : ℕ) (s : BinaryWsStreamWithEarlyData) : Prop where
  stream_eq : s.stream = some .io
  req_some : ∃ req, s.req = some req ∧ (req.header name).isSome
  future_eq : s.wsStreamFuture = none
  name_eq : s.earlyDataHeaderName = name
  len_eq : s.earlyDataLen = max
  phase_eq : s.isWriteEarlyData = false

/-- The stream during the handshake, which carries the beginning of `buf`. -/
structure Shaking (C : Codec) (name : String) (max : ℕ) (req : Request) (buf : List UInt8)
    (s : BinaryWsStreamWithEarlyData) : Prop where
  future_eq : s.wsStreamFuture = some ⟨req, false⟩
  header_eq : req.header name = some (C.encode (buf.take s.earlyDataLen))
  len_eq : s.earlyDataLen = min max buf.length
  phase_eq : s.isWriteEarlyData = false

/-- The stream after the handshake. -/
structure Open (s : BinaryWsStreamWithEarlyData) : Prop where
  stream_ws : ∃ ws, s.stream = some (.ws ws)
  phase_eq : s.isWriteEarlyData = true

/-- What is known of a session: before the first write, during the handshake and after it. -/
inductive Phase (C : Codec) (name : String) (max : ℕ) (p : EarlySession) : Prop
  | fresh (stream : Fresh name max p.stream) (calls_eq : p.calls = []) (accepted_eq : p.accepted = [])
      (again_eq : p.again = none)
  | shaking {req : Request} {buf : List UInt8} {polls : ℕ}
      (stream : Shaking C name max req buf p.stream)
      (calls_eq : p.calls = waiting req polls) (accepted_eq : p.accepted = [])
      (again_eq : p.again = some buf)
  | opened {req : Request} {polls : ℕ} {later : List WsCall} {early : List UInt8}
      (stream : Open p.stream)
      (calls_eq : p.calls =
        waiting req polls ++ .handshake req (.ready (.ok ())) :: later.map .ws)
      (header_eq : req.header name = some (C.encode early))
      (accepted_eq : early ++ binaries later = p.acceptedBytes)
      (bounded : ∀ w ∈ p.accepted, w.2 ≤ w.1.length)

/-! ### One poll -/

variable {s : BinaryWsStreamWithEarlyData} {a : EarlyAnswers} {req : Request} {buf : List UInt8}

/-- What a poll of a handshake leaves that does not fail, by the answer of the handshake. -/
inductive Shakes (C : Codec) (name : String) (max : ℕ) (req : Request) (buf : List UInt8) :
    Poll (Except String Unit) → EarlyPoll ℕ → Prop
  | pending {s : BinaryWsStreamWithEarlyData} (stream : Shaking C name max req buf s) :
      Shakes C name max req buf .pending ⟨s, [.handshake req .pending], [], .pending⟩
  | completed {s : BinaryWsStreamWithEarlyData} {woken : List ℕ} {len : ℕ} (stream : Open s)
      (header_eq : req.header name = some (C.encode (buf.take len)))
      (len_eq : len = min max buf.length) :
      Shakes C name max req buf (.ready (.ok ()))
        ⟨s, [.handshake req (.ready (.ok ()))], woken, .ready (.ok len)⟩

/-- A poll of a handshake under way, when it does not fail. -/
theorem shakes_pollHandshake (h : Shaking C name max req buf s)
    (h_ok : ∀ e, a.handshake ≠ .ready (.error e)) :
    ∃ y, s.pollHandshake a ⟨req, false⟩ = .ok y ∧ Shakes C name max req buf a.handshake y := by
  unfold BinaryWsStreamWithEarlyData.pollHandshake
  rw [if_neg Bool.false_ne_true]
  cases h_answer : a.handshake with
  | pending => exact ⟨_, rfl, .pending h⟩
  | ready r =>
    cases r with
    | error e => exact absurd h_answer (h_ok e)
    | ok _ => exact ⟨_, rfl, .completed ⟨⟨_, rfl⟩, rfl⟩ h.header_eq h.len_eq⟩

/-- The first write starts the handshake: the request has the early data in its header. -/
theorem startHandshake_of_fresh (h_C : C.Lawful) (h : Fresh name max s) (buf : List UInt8) :
    ∃ s' req, s.startHandshake C buf = .ok (s', ⟨req, false⟩) ∧
      Shaking C name max req buf s' := by
  obtain ⟨req, h_req, h_header⟩ := h.req_some
  obtain ⟨first, h_first⟩ := Option.isSome_iff_exists.mp h_header
  unfold BinaryWsStreamWithEarlyData.startHandshake
  rw [h_req, h.name_eq, h.stream_eq]
  dsimp only
  rw [h_first]
  dsimp only
  rw [if_pos (h_C.header_ok _)]
  exact ⟨_, _, rfl, rfl, Request.header_setHeader h_header _,
    congrArg (min · buf.length) h.len_eq, h.phase_eq⟩

/-- A write before the handshake has completed polls it. -/
theorem shakes_pollWrite_fresh (h_C : C.Lawful) (h : Fresh name max s)
    (h_ok : ∀ e, a.handshake ≠ .ready (.error e)) (buf : List UInt8) :
    ∃ y req, s.pollWrite C a buf = .ok y ∧ Shakes C name max req buf a.handshake y := by
  obtain ⟨s', req, h_start, h_shaking⟩ := startHandshake_of_fresh h_C h buf
  obtain ⟨y, h_poll, h_y⟩ := shakes_pollHandshake h_shaking h_ok
  refine ⟨y, req, ?_, h_y⟩
  unfold BinaryWsStreamWithEarlyData.pollWrite
  rw [h.phase_eq, if_neg Bool.false_ne_true, h.future_eq, h_start]
  exact h_poll

/-- A write while the handshake is under way is a poll of the handshake. -/
theorem shakes_pollWrite (h : Shaking C name max req buf s)
    (h_ok : ∀ e, a.handshake ≠ .ready (.error e)) :
    ∃ y, s.pollWrite C a buf = .ok y ∧ Shakes C name max req buf a.handshake y := by
  obtain ⟨y, h_poll, h_y⟩ := shakes_pollHandshake h h_ok
  refine ⟨y, ?_, h_y⟩
  unfold BinaryWsStreamWithEarlyData.pollWrite
  rw [h.phase_eq, if_neg Bool.false_ne_true, h.future_eq]
  exact h_poll

/-- What a poll other than a write leaves before the handshake has completed: one more waker. -/
def Waits (s s' : BinaryWsStreamWithEarlyData) : Prop :=
  ∃ early flush, s' = { s with earlyWaker := early, flushWaker := flush }

theorem Fresh.waits {s' : BinaryWsStreamWithEarlyData} (h : Fresh name max s) (h_s : Waits s s') :
    Fresh name max s' := by
  obtain ⟨early, flush, rfl⟩ := h_s
  exact ⟨h.stream_eq, h.req_some, h.future_eq, h.name_eq, h.len_eq, h.phase_eq⟩

theorem Shaking.waits {s' : BinaryWsStreamWithEarlyData} (h : Shaking C name max req buf s)
    (h_s : Waits s s') : Shaking C name max req buf s' := by
  obtain ⟨early, flush, rfl⟩ := h_s
  exact ⟨h.future_eq, h.header_eq, h.len_eq, h.phase_eq⟩

theorem pollRead_waits (debug : Message → String) (h : s.isWriteEarlyData = false) (waker : ℕ)
    (es : List WsEvent) (room : ℕ) :
    ∃ s', s.pollRead debug a waker es room = .ok (⟨s', [], [], .pending⟩, es, []) ∧
      Waits s s' := by
  unfold BinaryWsStreamWithEarlyData.pollRead
  rw [if_neg (by rw [h]; exact Bool.false_ne_true)]
  exact ⟨_, rfl, _, _, rfl⟩

theorem pollFlush_waits (h : s.isWriteEarlyData = false) (waker : ℕ) :
    ∃ s', s.pollFlush a waker = .ok ⟨s', [], [], .pending⟩ ∧ Waits s s' := by
  unfold BinaryWsStreamWithEarlyData.pollFlush
  rw [if_neg (by rw [h]; exact Bool.false_ne_true)]
  exact ⟨_, rfl, _, _, rfl⟩

theorem pollShutdown_waits (h : s.isWriteEarlyData = false) (waker : ℕ) :
    ∃ s', s.pollShutdown a waker = .ok ⟨s', [], [], .pending⟩ ∧ Waits s s' := by
  obtain ⟨s', h_flush, h_waits⟩ := pollFlush_waits (a := a) h waker
  unfold BinaryWsStreamWithEarlyData.pollShutdown
  rw [if_neg (by rw [h]; exact Bool.false_ne_true), h_flush]
  exact ⟨s', rfl, h_waits⟩

/-- A poll other than a write waits for the handshake, and makes no calls. -/
theorem step_waits (debug : Message → String) (h : p.stream.isWriteEarlyData = false)
    (h_op : ∀ buf, x.op ≠ .write buf) :
    ∃ s, step C debug p x = .ok { p with stream := s } ∧ Waits p.stream s := by
  -- such a step appends no calls
  have h_calls : p.calls ++ [] = p.calls := List.append_nil p.calls
  unfold step
  cases h_x : x.op with
  | write buf => exact absurd h_x (h_op buf)
  | read room =>
    obtain ⟨s, h_poll, h_s⟩ := pollRead_waits (a := x.answers) debug h x.waker p.incoming room
    refine ⟨s, ?_, h_s⟩
    dsimp only
    rw [h_poll, ok_bind, h_calls]
    rfl
  | flush =>
    obtain ⟨s, h_poll, h_s⟩ := pollFlush_waits (a := x.answers) h x.waker
    refine ⟨s, ?_, h_s⟩
    dsimp only
    rw [h_poll, ok_bind, h_calls]
    rfl
  | shutdown =>
    obtain ⟨s, h_poll, h_s⟩ := pollShutdown_waits (a := x.answers) h x.waker
    refine ⟨s, ?_, h_s⟩
    dsimp only
    rw [h_poll, ok_bind, h_calls]
    rfl

/-! ### After the handshake -/

theorem pollWrite_open (h : Open s) (buf : List UInt8) :
    s.pollWrite C a buf = .ok ⟨s, (BinaryWsStream.pollWrite a.ws buf).2.map .ws, [],
      (BinaryWsStream.pollWrite a.ws buf).1⟩ := by
  obtain ⟨ws, h_ws⟩ := h.stream_ws
  unfold BinaryWsStreamWithEarlyData.pollWrite
  rw [if_pos h.phase_eq, h_ws]

/-- After the handshake a read is one of the WebSocket stream, which sends nothing of its own. -/
theorem pollRead_open (debug : Message → String) (h : Open s) (waker : ℕ) (es : List WsEvent)
    (room : ℕ) :
    ∃ s' calls r es' put,
      s.pollRead debug a waker es room = .ok (⟨s', calls.map .ws, [], r⟩, es', put) ∧
        Open s' ∧ binaries calls = [] := by
  obtain ⟨ws, h_ws⟩ := h.stream_ws
  let y := ws.pollRead debug es room
  refine ⟨{ s with stream := some (.ws y.state) }, if ws.readBuffer.isNone then [.next] else [],
    y.result, y.events, y.put, ?_, ⟨⟨_, rfl⟩, h.phase_eq⟩, ?_⟩
  · unfold BinaryWsStreamWithEarlyData.pollRead
    rw [if_pos h.phase_eq, h_ws]
  · cases ws.readBuffer <;> rfl

theorem pollFlush_open (h : Open s) (waker : ℕ) :
    s.pollFlush a waker = .ok ⟨s, [.ws .flush], [], a.ws.flush⟩ := by
  obtain ⟨ws, h_ws⟩ := h.stream_ws
  unfold BinaryWsStreamWithEarlyData.pollFlush
  rw [if_pos h.phase_eq, h_ws]
  rfl

theorem pollShutdown_open (h : Open s) (waker : ℕ) :
    s.pollShutdown a waker = .ok ⟨s, (BinaryWsStream.pollShutdown a.ws).2.map .ws, [],
      (BinaryWsStream.pollShutdown a.ws).1⟩ := by
  obtain ⟨ws, h_ws⟩ := h.stream_ws
  unfold BinaryWsStreamWithEarlyData.pollShutdown BinaryWsStreamWithEarlyData.shutdownStream
  rw [if_pos h.phase_eq, h_ws]

/-- A poll other than a write goes to the WebSocket stream, and sends no binary message. -/
theorem step_open (debug : Message → String) (h : Open p.stream) (h_op : ∀ buf, x.op ≠ .write buf) :
    ∃ s incoming calls, step C debug p x =
        .ok { p with stream := s, incoming := incoming, calls := p.calls ++ calls.map .ws } ∧
      Open s ∧ binaries calls = [] := by
  obtain ⟨ws, h_ws⟩ := h.stream_ws
  unfold step
  -- each poll is handed to the WebSocket stream, which is there
  cases h_x : x.op with
  | write buf => exact absurd h_x (h_op buf)
  | read room =>
    obtain ⟨s, calls, r, incoming, put, h_poll, h_s, h_calls⟩ :=
      pollRead_open (a := x.answers) debug h x.waker p.incoming room
    dsimp only
    rw [h_poll, ok_bind]
    exact ⟨s, incoming, calls, rfl, h_s, h_calls⟩
  | flush =>
    dsimp only
    rw [pollFlush_open h, ok_bind]
    exact ⟨_, _, [.flush], rfl, h, rfl⟩
  | shutdown =>
    dsimp only
    rw [pollShutdown_open h, ok_bind]
    exact ⟨_, _, _, rfl, h, BinaryWsStream.binaries_pollShutdown _⟩

/-! ### Runs -/

/-- The handshake has been polled for the slice `buf`. -/
theorem phase_of_shakes {answer : Poll (Except String Unit)} {y : EarlyPoll ℕ} {polls : ℕ}
    (h : Shakes C name max req buf answer y)
    (h_calls : p.calls = waiting req polls) (h_accepted : p.accepted = []) :
    ∃ p', (match y.result with
        | .pending =>
          .ok { p with stream := y.state, calls := p.calls ++ y.calls, again := some buf }
        | .ready (.error _) =>
          .ok { p with stream := y.state, calls := p.calls ++ y.calls, again := none }
        | .ready (.ok n) =>
          .ok { p with stream := y.state, calls := p.calls ++ y.calls, again := none,
                       accepted := p.accepted ++ [(buf, n)] } : Except Fault EarlySession) =
          .ok p' ∧
      Phase C name max p' ∧
      (answer = .ready (.ok ()) → p'.accepted = [(buf, min max buf.length)]) := by
  cases h with
  -- the same slice is offered again by the next write
  | pending stream =>
    refine ⟨_, rfl, @Phase.shaking _ _ _ _ req buf (polls + 1) stream ?_ h_accepted rfl,
      fun h_done => (by cases h_done)⟩
    dsimp only
    rw [h_calls, waiting, waiting, List.replicate_succ']
  | @completed s woken len stream header_eq len_eq =>
    refine ⟨_, rfl, @Phase.opened _ _ _ _ req polls [] (buf.take len) stream ?_ header_eq ?_ ?_,
      fun _ => ?_⟩
    · dsimp only
      rw [h_calls]
      rfl
    · -- the early data are all that is accepted
      rw [acceptedBytes]
      dsimp only
      rw [h_accepted]
      rfl
    · dsimp only
      rw [h_accepted]
      intro w h_w
      cases List.mem_singleton.mp h_w
      exact len_eq ▸ Nat.min_le_right _ _
    · dsimp only
      rw [h_accepted, len_eq]
      rfl

theorem binaries_append (calls calls' : List WsCall) :
    binaries (calls ++ calls') = binaries calls ++ binaries calls' := List.flatMap_append

/-- More calls on the WebSocket stream. -/
theorem calls_append {polls : ℕ} {later calls : List WsCall}
    (h : p.calls = waiting req polls ++ .handshake req (.ready (.ok ())) :: later.map .ws) :
    p.calls ++ calls.map .ws =
      waiting req polls ++ .handshake req (.ready (.ok ())) :: (later ++ calls).map .ws := by
  rw [h, List.map_append, List.append_assoc]
  rfl

/-- A write before the handshake has completed. The one at which it completes is accepted, the first
of all, with as many bytes as the header may carry. -/
theorem step_write_waits (debug : Message → String) (h_C : C.Lawful) (h : Phase C name max p)
    (h_waits : p.stream.isWriteEarlyData = false) {new : List UInt8} (h_op : x.op = .write new)
    (h_ok : ∀ e, x.answers.handshake ≠ .ready (.error e)) :
    ∃ p', step C debug p x = .ok p' ∧ Phase C name max p' ∧
      (x.answers.handshake = .ready (.ok ()) →
        p'.accepted = [(p.again.getD new, min max (p.again.getD new).length)]) := by
  unfold step
  rw [h_op]
  dsimp only
  cases h with
  | fresh stream calls_eq accepted_eq again_eq =>
    obtain ⟨y, req, h_poll, h_y⟩ := shakes_pollWrite_fresh h_C stream h_ok (p.again.getD new)
    rw [h_poll, ok_bind]
    exact @phase_of_shakes _ _ p _ _ _ _ y 0 h_y calls_eq accepted_eq
  | @shaking req buf polls stream calls_eq accepted_eq again_eq =>
    -- the slice is the one that the handshake carries
    obtain ⟨y, h_poll, h_y⟩ := shakes_pollWrite stream h_ok
    rw [again_eq, Option.getD_some, h_poll, ok_bind]
    exact phase_of_shakes h_y calls_eq accepted_eq
  | opened stream =>
    rw [stream.phase_eq] at h_waits
    cases h_waits

/-- **One step** keeps the phases, if the handshake does not fail. -/
theorem phase_step (debug : Message → String) (h_C : C.Lawful) (h : Phase C name max p)
    (h_ok : ∀ e, x.answers.handshake ≠ .ready (.error e)) :
    ∃ p', step C debug p x = .ok p' ∧ Phase C name max p' := by
  -- all but a write, which tell the stream apart by whether the handshake is done
  by_cases h_op : ∀ buf, x.op ≠ .write buf
  · cases h with
    | fresh stream calls_eq accepted_eq again_eq =>
      obtain ⟨s, h_step, h_s⟩ := step_waits (C := C) debug stream.phase_eq h_op
      exact ⟨_, h_step, .fresh (stream.waits h_s) calls_eq accepted_eq again_eq⟩
    | shaking stream calls_eq accepted_eq again_eq =>
      obtain ⟨s, h_step, h_s⟩ := step_waits (C := C) debug stream.phase_eq h_op
      exact ⟨_, h_step, .shaking (stream.waits h_s) calls_eq accepted_eq again_eq⟩
    -- what is not a write sends no binary message
    | opened stream calls_eq header_eq accepted_eq bounded =>
      obtain ⟨s, incoming, calls, h_step, h_s, h_calls⟩ :=
        step_open (C := C) debug stream h_op
      refine ⟨_, h_step, .opened h_s (calls_append calls_eq) header_eq ?_ bounded⟩
      rw [binaries_append, h_calls, List.append_nil]
      exact accepted_eq
  · -- a write has to take what is offered, the slice of a pending write or a new one
    obtain ⟨new, h_write⟩ := not_forall_not.mp h_op
    have h_phase := h
    cases h with
    | fresh stream =>
      obtain ⟨p', h_step, h_p', -⟩ :=
        step_write_waits debug h_C h_phase stream.phase_eq h_write h_ok
      exact ⟨p', h_step, h_p'⟩
    | shaking stream =>
      obtain ⟨p', h_step, h_p', -⟩ :=
        step_write_waits debug h_C h_phase stream.phase_eq h_write h_ok
      exact ⟨p', h_step, h_p'⟩
    -- after the handshake: a write of the WebSocket stream
    | opened stream calls_eq header_eq accepted_eq bounded =>
      unfold step
      rw [h_write]
      dsimp only
      rw [pollWrite_open stream, ok_bind]
      have h_accepts := @BinaryWsStream.pollWrite_accepts x.answers.ws (p.again.getD new)
      generalize BinaryWsStream.pollWrite x.answers.ws (p.again.getD new) = r at h_accepts ⊢
      generalize p.again.getD new = buf at h_accepts ⊢
      obtain ⟨result, calls⟩ := r
      match result, h_accepts with
      -- `poll_ready` is pending or fails, so nothing has been sent
      | .pending, h_none =>
        refine ⟨_, rfl, .opened stream (calls_append calls_eq) header_eq ?_ bounded⟩
        rw [binaries_append, h_none, List.append_nil]
        exact accepted_eq
      | .ready (.error _), h_none =>
        refine ⟨_, rfl, .opened stream (calls_append calls_eq) header_eq ?_ bounded⟩
        rw [binaries_append, h_none, List.append_nil]
        exact accepted_eq
      -- one message with all of the slice
      | .ready (.ok n), ⟨h_len, h_buf⟩ =>
        refine ⟨_, rfl, .opened stream (calls_append calls_eq) header_eq ?_ ?_⟩
        · rw [binaries_append, h_buf, ← List.append_assoc, accepted_eq, acceptedBytes,
            acceptedBytes, List.flatMap_append, h_len]
          refine congrArg (_ ++ ·) ?_
          rw [List.flatMap_singleton, List.take_length]
        · intro w h_w
          rcases List.mem_append.mp h_w with h_w | h_w
          · exact bounded w h_w
          · cases List.mem_singleton.mp h_w
            exact Nat.le_of_eq h_len

/-- Every run keeps the phases. -/
theorem phase_run (debug : Message → String) (h_C : C.Lawful) {steps : List EarlyStep}
    (h : Phase C name max p)
    (h_ok : ∀ x ∈ steps, ∀ e, x.answers.handshake ≠ .ready (.error e)) :
    ∃ p', run C debug p steps = .ok p' ∧ Phase C name max p' := by
  induction steps generalizing p with
  | nil => exact ⟨p, rfl, h⟩
  | cons x steps ih =>
    obtain ⟨h_x, h_ok⟩ := List.forall_mem_cons.mp h_ok
    obtain ⟨p', h_step, h_p'⟩ := phase_step debug h_C h h_x
    obtain ⟨p'', h_run, h_p''⟩ := ih h_p' h_ok
    refine ⟨p'', ?_, h_p''⟩
    rw [run, List.foldlM_cons, h_step, ok_bind]
    exact h_run

theorem Phase.accounts (h_C : C.Lawful) (h : Phase C name max p) : Accounts C name p := by
  cases h with
  -- no request has been sent, and any request fits `waiting req 0`
  | fresh stream calls_eq accepted_eq =>
    obtain ⟨req, -⟩ := stream.req_some
    exact @Accounts.waiting _ _ _ req 0 calls_eq accepted_eq
  | shaking stream calls_eq accepted_eq => exact .waiting calls_eq accepted_eq
  | opened stream calls_eq header_eq accepted_eq =>
    exact .completed calls_eq header_eq (h_C.decode_encode _) accepted_eq

theorem Phase.bounded (h : Phase C name max p) : ∀ w ∈ p.accepted, w.2 ≤ w.1.length := by
  cases h with
  | fresh _ _ accepted_eq =>
    rw [accepted_eq]
    exact List.forall_mem_nil _
  | shaking _ _ accepted_eq =>
    rw [accepted_eq]
    exact List.forall_mem_nil _
  | opened _ _ _ _ bounded => exact bounded

/-- The request of a builder with early data has the header for them. -/
theorem header_of_wsReq {W : World} {uri : Uri} {headers : List (String × String)}
    (h_max : 0 < max) (h : StreamBuilder.wsReq W uri headers max name = .ok req) :
    (req.header name).isSome := by
  unfold StreamBuilder.wsReq at h
  cases h_authority : uri.authority with
  | none =>
    rw [h_authority] at h
    cases h
  | some authority =>
    rw [h_authority] at h
    dsimp only at h
    -- a builder with early data puts a header of this name into the request
    rw [if_pos h_max] at h
    unfold World.body at h
    split at h
    · cases h
      rw [Request.header, Option.isSome_map, List.find?_isSome]
      refine ⟨(name, "s"), ?_, decide_eq_true rfl⟩
      exact List.mem_append_right _ List.mem_cons_self
    · cases h

/-- A stream that `build_tcp` has made is before its first write. -/
theorem phase_start (W : World) {uri : Uri} {headers : List (String × String)} (h_max : 0 < max)
    (h_req : StreamBuilder.wsReq W uri headers max name = .ok req) (incoming : List WsEvent) :
    Phase C name max (start req name max incoming) :=
  .fresh ⟨rfl, ⟨req, rfl, header_of_wsReq h_max h_req⟩, rfl, rfl, rfl, rfl⟩ rfl rfl rfl

/-- **The write that completes the handshake**, after any polls before it: it returns as many bytes
as the header may carry, or all that it has. -/
theorem step_completes (W : World) {uri : Uri} {headers : List (String × String)} (h_C : C.Lawful)
    (h_max : 0 < max) (h_req : StreamBuilder.wsReq W uri headers max name = .ok req)
    (debug : Message → String) (incoming : List WsEvent) {steps : List EarlyStep}
    (h_ok : ∀ x ∈ steps, ∀ e, x.answers.handshake ≠ .ready (.error e))
    (h_run : run C debug (start req name max incoming) steps = .ok p)
    (h_waits : p.stream.isWriteEarlyData = false) {new : List UInt8} (h_op : x.op = .write new)
    (h_done : x.answers.handshake = .ready (.ok ())) :
    ∃ p', step C debug p x = .ok p' ∧
      p'.accepted = [(p.again.getD new, min max (p.again.getD new).length)] := by
  -- the run is one that keeps the phases
  obtain ⟨p₁, h_run₁, h_p⟩ := phase_run debug h_C (phase_start W h_max h_req incoming) h_ok
  rw [h_run] at h_run₁
  cases h_run₁
  obtain ⟨p', h_step, -, h_accepted⟩ := step_write_waits debug h_C h_p h_waits h_op
    (fun e h_e => by rw [h_done] at h_e; cases h_e)
  exact ⟨p', h_step, h_accepted h_done⟩

/-- **Early data.** Over any polls of a stream that `build_tcp` has made, whatever the writer polls
(a slice again until it is accepted), in any order with reads, flushes and shutdowns, and however
long the handshake takes: no poll panics; a write accepts no more than its slice; before the
handshake has completed no other call is made; and the early data of its request, decoded, and the
binary messages after it are the bytes that were accepted. -/
theorem run_accounts (W : World) {uri : Uri} {headers : List (String × String)} (h_C : C.Lawful)
    (h_max : 0 < max) (h_req : StreamBuilder.wsReq W uri headers max name = .ok req)
    (debug : Message → String) (incoming : List WsEvent) {steps : List EarlyStep}
    (h_ok : ∀ x ∈ steps, ∀ e, x.answers.handshake ≠ .ready (.error e)) :
    ∃ p, run C debug (start req name max incoming) steps = .ok p ∧
      (∀ w ∈ p.accepted, w.2 ≤ w.1.length) ∧ Accounts C name p := by
  obtain ⟨p, h_run, h_p⟩ := phase_run debug h_C (phase_start W h_max h_req incoming) h_ok
  exact ⟨p, h_run, h_p.bounded, h_p.accounts h_C⟩

/-- The headers of the name `Early` that polls of the handshake have carried. -/
def earlyHeaders (p : EarlySession) : List String :=
  p.calls.filterMap fun
    | .handshake req _ => req.header "Early"
    | _ => none

/-- A write of four bytes, polled three times and once flushed in between, and a write of the fourth
byte again: the header carries three of them, so three are accepted, and then one in a message. -/
theorem run_accounts_three :
    let req : Request :=
      { method := "GET"
        uri := ⟨some "ws", some "example.com", "/"⟩
        headers := [("Host", "example.com"), ("Connection", "Upgrade"), ("Upgrade", "websocket"),
          ("Sec-WebSocket-Version", "13"), ("Sec-WebSocket-Key", World.calm.generateKey),
          ("Early", "s")] }
    let answers (handshake : Poll (Except String Unit)) : EarlyAnswers :=
      { handshake := handshake
        ioRead := .pending
        ioWrite := .pending
        ioFlush := .pending
        ioShutdown := .pending
        ws := ⟨.ready (.ok ()), .ok (), .ready (.ok ()), .ready (.ok ())⟩ }
    let steps : List EarlyStep :=
      [⟨.write [1, 2, 3, 4], 0, answers .pending⟩, ⟨.flush, 0, answers .pending⟩,
        ⟨.write [1, 2, 3, 4], 0, answers .pending⟩,
        ⟨.write [1, 2, 3, 4], 0, answers (.ready (.ok ()))⟩, ⟨.write [4], 0, answers .pending⟩]
    ∃ p, run base64 (fun _ => "") (start req "Early" 3 []) steps = .ok p ∧
      (∀ w ∈ p.accepted, w.2 ≤ w.1.length) ∧ Accounts base64 "Early" p ∧
      p.accepted = [([1, 2, 3, 4], 3), ([4], 1)] ∧
      earlyHeaders p = List.replicate 3 "AQID" := by
  intro req answers steps
  have h_req : StreamBuilder.wsReq World.calm ⟨some "ws", some "example.com", "/"⟩ [] 3 "Early" =
      .ok req := by decide
  -- the handshake is pending, or completes
  have h_ok : ∀ x ∈ steps, ∀ e, x.answers.handshake ≠ .ready (.error e) := by
    simp only [steps, answers, List.forall_mem_cons]
    refine ⟨fun e h => ?_, fun e h => ?_, fun e h => ?_, fun e h => ?_, fun e h => ?_,
      List.forall_mem_nil _⟩
    all_goals cases h
  obtain ⟨p, h_run, h_bounded, h_accounts⟩ :=
    run_accounts World.calm lawful_base64 (by decide) h_req (fun _ => "") [] h_ok
  have h_values : (run base64 (fun _ => "") (start req "Early" 3 []) steps).toOption.map
      (fun p => (p.accepted, earlyHeaders p)) =
        some ([([1, 2, 3, 4], 3), ([4], 1)], List.replicate 3 "AQID") := by
    decide +kernel
  rw [h_run] at h_values
  obtain ⟨h_accepted, h_headers⟩ := Prod.mk.inj (Option.some.inj h_values)
  exact ⟨p, h_run, h_bounded, h_accounts, h_accepted, h_headers⟩

end EarlySession

end V2ray
