import Mathlib.Data.List.Rotate
import V2rayRust.Lib.Poll
import V2rayRust.Proxy.ChainUdp
import V2rayRust.Proxy.Shadowsocks.AeadHelper

/-!
# Sending datagrams through Shadowsocks layers

`proxy/shadowsocks/udp_crypto_io.rs`: a `ShadowSocksUdpStream` encrypts what it is given for
its target and hands the packet down, addressed to the address it holds. A datagram that is
polled until it is sent leaves one packet a layer, whatever the schedule (`runJob_eq`); so
what a chain does is read off the addresses that its layers hold, and these are the
configured ones shifted by one (`udpStack_of_buildUdp`).
-/

namespace V2ray

open HopConfig

/-! ### The stream -/

/-- `encrypt_payload`, with `salt` for what `generate_nonce` draws: what is in `dst` after it. -/
def encryptPayload (A : Aead) (method : CipherKind) (key : List UInt8) (addr : Address)
    (payload salt dst : List UInt8) : List UInt8 :=
  match method with
  | .none => dst ++ addr.writeToBuf ++ payload
  | _ =>
    let cipher := AeadCipher.new A method key salt
    salt ++ (cipher.encrypt A (addr.writeToBuf ++ payload)).1

/-- `ShadowSocksUdpStream`, less the stream below it. `sending` says that `priv_poll_write` is
suspended at its `co_await`. -/
structure ShadowSocksUdpStream where
  addr : Address
  writeBuffer : List UInt8
  method : CipherKind
  key : List UInt8
  sending : Bool

namespace ShadowSocksUdpStream

def new (addr : Address) (method : CipherKind) (key : List UInt8) : ShadowSocksUdpStream :=
  ⟨addr, [], method, key, false⟩

end ShadowSocksUdpStream

/-- The Shadowsocks layers on top of a stream, the outermost first. -/
def Stream.udpStack : Stream → List ShadowSocksUdpStream
  | .layered (.shadowSocksUdpStream addr method key) io => .new addr method key :: io.udpStack
  | _ => []

/-- What a poll of `poll_send_to` leaves: the layers, what each of them handed to the one
below it and for which destination, and the answer. -/
structure SendPoll where
  layers : List ShadowSocksUdpStream
  handed : List (List UInt8 × Address)
  result : Poll (Except String ℕ)

/-- `poll_send_to`: the loop of `priv_poll_write` at each layer, above a stream that answers
`answer`. `salts` is drawn from by the layers in turn. -/
def pollSendTo (A : Aead) (answer : Poll (Except String ℕ)) :
    List ShadowSocksUdpStream → (ℕ → List UInt8) → List UInt8 → Address → SendPoll
  | [], _, _, _ => ⟨[], [], answer⟩
  | l :: ls, salts, data, addr =>
    let writeBuffer :=
      if l.sending then l.writeBuffer
      else encryptPayload A l.method l.key addr data (salts 0) l.writeBuffer
    let below := pollSendTo A answer ls (fun n => salts (n + 1)) writeBuffer l.addr
    let handed := (writeBuffer, l.addr) :: below.handed
    match below.result with
    | .pending => ⟨{ l with writeBuffer, sending := true } :: below.layers, handed, .pending⟩
    | .ready r => ⟨{ l with writeBuffer := [], sending := false } :: below.layers, handed, .ready r⟩

/-- A datagram that is polled until it is sent: the stream below is pending for a while and
then answers. -/
structure SendJob where
  target : Address
  data : List UInt8
  pendings : List (ℕ → List UInt8)
  salts : ℕ → List UInt8
  answer : Except String ℕ

/-- Polls of a job, each with what the layers draw and the answer from below: what was
handed down in each, and the layers afterwards. -/
def runPolls (A : Aead) (job : SendJob) :
    List ((ℕ → List UInt8) × Poll (Except String ℕ)) → List ShadowSocksUdpStream →
      List (List (List UInt8 × Address)) × List ShadowSocksUdpStream
  | [], ls => ([], ls)
  | (salts, answer) :: polls, ls =>
    let x := pollSendTo A answer ls salts job.data job.target
    let (handed, ls) := runPolls A job polls x.layers
    (x.handed :: handed, ls)

def runJob (A : Aead) (job : SendJob) (ls : List ShadowSocksUdpStream) :
    List (List (List UInt8 × Address)) × List ShadowSocksUdpStream :=
  runPolls A job (job.pendings.map (·, .pending) ++ [(job.salts, .ready job.answer)]) ls

/-- Jobs one after the other: each with what was handed down in its polls. -/
def runJobs (A : Aead) : List SendJob → List ShadowSocksUdpStream →
    List (SendJob × List (List (List UInt8 × Address)))
  | [], _ => []
  | job :: jobs, ls =>
    let (handed, ls) := runJob A job ls
    (job, handed) :: runJobs A jobs ls

/-! ### One datagram -/

/-- The packets of one datagram, from the outermost layer in: each layer encrypts what it is
given for its target, and hands it down to the address it holds. -/
inductive Handing (A : Aead) :
    List ShadowSocksUdpStream → Address → List UInt8 → List (List UInt8 × Address) → Prop
  | nil (target : Address) (data : List UInt8) : Handing A [] target data []
  | cons {l : ShadowSocksUdpStream} {ls : List ShadowSocksUdpStream} {target : Address}
      {data : List UInt8} {handed : List (List UInt8 × Address)} (salt : List UInt8)
      (below : Handing A ls l.addr (encryptPayload A l.method l.key target data salt []) handed) :
      Handing A (l :: ls) target data
        ((encryptPayload A l.method l.key target data salt [], l.addr) :: handed)

/-- No layer is in the middle of a datagram. -/
def Idle (ls : List ShadowSocksUdpStream) : Prop :=
  ∀ l ∈ ls, l.sending = false ∧ l.writeBuffer = []

/-- The layers while the packets `handed` are on their way. -/
def sendingOf (ls : List ShadowSocksUdpStream) (handed : List (List UInt8 × Address)) :
    List ShadowSocksUdpStream :=
  List.zipWith (fun l h => { l with writeBuffer := h.1, sending := true }) ls handed

/-- What a poll with the packets `handed` on their way leaves. -/
def SendPoll.of (ls : List ShadowSocksUdpStream) (handed : List (List UInt8 × Address)) :
    Poll (Except String ℕ) → SendPoll
  | .pending => ⟨sendingOf ls handed, handed, .pending⟩
  | .ready r => ⟨ls, handed, .ready r⟩

variable {A : Aead} {ls : List ShadowSocksUdpStream}

/-- The first poll of a datagram. -/
theorem pollSendTo_idle (h : Idle ls) (answer : Poll (Except String ℕ)) (salts : ℕ → List UInt8)
    (data : List UInt8) (target : Address) :
    ∃ handed, Handing A ls target data handed ∧
      pollSendTo A answer ls salts data target = .of ls handed answer := by
  induction ls generalizing salts data target with
  | nil =>
    refine ⟨[], .nil target data, ?_⟩
    cases answer <;> rfl
  | cons l ls ih =>
    obtain ⟨h_sending, h_buffer⟩ := h l List.mem_cons_self
    obtain ⟨handed, h_below, h_poll⟩ := ih (fun x hx => h x (List.mem_cons_of_mem _ hx))
      (fun n => salts (n + 1)) (encryptPayload A l.method l.key target data (salts 0) []) l.addr
    refine ⟨_, .cons (salts 0) h_below, ?_⟩
    rw [pollSendTo]
    simp only [h_sending, h_buffer, Bool.false_eq_true, if_false, h_poll]
    cases answer with
    | pending => rfl
    | ready r =>
      -- the buffer is cleared, as it was before
      have h_l : { l with writeBuffer := [], sending := false } = l := by
        cases l
        cases h_sending
        cases h_buffer
        rfl
      simp only [SendPoll.of, h_l]

/-- A poll while a datagram is on its way: the layers hand down what they have, whatever the
caller passes. -/
theorem pollSendTo_sending (h : Idle ls) {target : Address} {data : List UInt8}
    {handed : List (List UInt8 × Address)} (h_handing : Handing A ls target data handed)
    (answer : Poll (Except String ℕ)) (salts : ℕ → List UInt8) (data' : List UInt8)
    (target' : Address) :
    pollSendTo A answer (sendingOf ls handed) salts data' target' = .of ls handed answer := by
  -- on the layers, from the outermost one; each hands down what is in its buffer
  induction h_handing generalizing salts data' target' with
  | nil => cases answer <;> rfl
  | @cons l ls target data handed salt _ ih =>
    obtain ⟨h_sending, h_buffer⟩ := h l List.mem_cons_self
    have h_below := ih (fun x hx => h x (List.mem_cons_of_mem _ hx))
      (fun n => salts (n + 1)) (encryptPayload A l.method l.key target data salt []) l.addr
    rw [sendingOf, List.zipWith_cons_cons, ← sendingOf, pollSendTo]
    simp only [if_true, h_below]
    cases answer with
    | pending => rfl
    | ready r =>
      have h_l : { l with writeBuffer := [], sending := false } = l := by
        cases l
        cases h_sending
        cases h_buffer
        rfl
      simp only [SendPoll.of, h_l]

/-- A datagram that is under way is handed down the same in every poll, and the last one makes the
stack idle again. -/
theorem runPolls_sending (h : Idle ls) (job : SendJob) {handed : List (List UInt8 × Address)}
    (h_handing : Handing A ls job.target job.data handed) (pendings : List (ℕ → List UInt8)) :
    runPolls A job (pendings.map (·, .pending) ++ [(job.salts, .ready job.answer)])
      (sendingOf ls handed) = (List.replicate (pendings.length + 1) handed, ls) := by
  induction pendings with
  | nil =>
    show runPolls A job [(job.salts, .ready job.answer)] (sendingOf ls handed) = _
    rw [runPolls, pollSendTo_sending h h_handing]
    rfl
  | cons salts pendings ih =>
    rw [List.map_cons, List.cons_append, runPolls, pollSendTo_sending h h_handing]
    simp only [SendPoll.of, ih]
    rfl

/-- **One datagram.** Every poll hands down the same packets, and the layers are idle
again. -/
theorem runJob_eq (h : Idle ls) (job : SendJob) :
    ∃ handed, Handing A ls job.target job.data handed ∧
      runJob A job ls = (List.replicate (job.pendings.length + 1) handed, ls) := by
  unfold runJob
  -- the first poll hands the packet down, and the others find it sealed
  cases h_pendings : job.pendings with
  | nil =>
    obtain ⟨handed, h_handing, h_poll⟩ :=
      pollSendTo_idle (A := A) h (.ready job.answer) job.salts job.data job.target
    refine ⟨handed, h_handing, ?_⟩
    show runPolls A job [(job.salts, .ready job.answer)] ls = _
    rw [runPolls, h_poll]
    rfl
  | cons salts pendings =>
    obtain ⟨handed, h_handing, h_poll⟩ :=
      pollSendTo_idle (A := A) h .pending salts job.data job.target
    refine ⟨handed, h_handing, ?_⟩
    rw [List.map_cons, List.cons_append, runPolls, h_poll]
    simp only [SendPoll.of, runPolls_sending h job h_handing]
    rfl

/-- What a run of jobs hands down, each job starts from idle layers. -/
theorem mem_runJobs (h : Idle ls) {jobs : List SendJob} {job : SendJob}
    {polls : List (List (List UInt8 × Address))} (h_mem : (job, polls) ∈ runJobs A jobs ls) :
    ∃ handed, Handing A ls job.target job.data handed ∧
      polls = List.replicate (job.pendings.length + 1) handed := by
  induction jobs with
  | nil => cases h_mem
  | cons job' jobs ih =>
    obtain ⟨handed, h_handing, h_run⟩ := runJob_eq (A := A) h job'
    simp only [runJobs, h_run] at h_mem
    rcases List.mem_cons.mp h_mem with h_head | h_mem
    · cases h_head
      exact ⟨handed, h_handing, rfl⟩
    · exact ih h_mem

/-! ### What the chain asks for -/

/-- The Shadowsocks configuration of a hop. -/
def HopConfig.ssConfig : HopConfig → Option ShadowsocksConfig
  | ss c => some c
  | _ => none

/-- The packets that are right for the Shadowsocks hops of a chain, the last one first: the
layer of a hop encrypts for its target, and hands the packet down to the server address of
the hop, which is the target of the layer below. -/
inductive Nested (W : World) (A : Aead) :
    List ShadowsocksConfig → Address → List UInt8 → List (List UInt8 × Address) → Prop
  | nil (target : Address) (data : List UInt8) : Nested W A [] target data []
  | cons {c : ShadowsocksConfig} {cs : List ShadowsocksConfig} {target : Address}
      {data packet : List UInt8} {handed : List (List UInt8 × Address)} (salt : List UInt8)
      (packet_eq : packet = encryptPayload A c.method
        (opensslBytesToKey W c.password.toUTF8.toList c.method.keyLen) target data salt [])
      (below : Nested W A cs c.addr packet handed) :
      Nested W A (c :: cs) target data ((packet, c.addr) :: handed)

theorem Handing.map_snd {target : Address} {data : List UInt8}
    {handed : List (List UInt8 × Address)} (h : Handing A ls target data handed) :
    handed.map Prod.snd = ls.map ShadowSocksUdpStream.addr := by
  induction h with
  | nil => rfl
  | cons _ _ ih => exact congrArg _ ih

theorem Nested.map_snd {W : World} {cs : List ShadowsocksConfig} {target : Address}
    {data : List UInt8} {handed : List (List UInt8 × Address)}
    (h : Nested W A cs target data handed) :
    handed.map Prod.snd = cs.map ShadowsocksConfig.addr := by
  induction h with
  | nil => rfl
  | cons _ _ _ ih => exact congrArg _ ih

/-- `l` is a fresh layer with the method and the key of `c`. -/
structure LayerOf (W : World) (c : ShadowsocksConfig) (l : ShadowSocksUdpStream) : Prop where
  method_eq : l.method = c.method
  key_eq : l.key = opensslBytesToKey W c.password.toUTF8.toList c.method.keyLen
  idle : l.sending = false ∧ l.writeBuffer = []

/-- Layers hand down what is right for their hops exactly if they hold their hops'
addresses. -/
theorem nested_iff {W : World} {cs : List ShadowsocksConfig}
    (h : List.Forall₂ (LayerOf W) cs ls) {target : Address} {data : List UInt8}
    {handed : List (List UInt8 × Address)} (h_handing : Handing A ls target data handed) :
    Nested W A cs target data handed ↔
      ls.map ShadowSocksUdpStream.addr = cs.map ShadowsocksConfig.addr := by
  constructor
  · intro h_nested
    -- both are the destinations that were handed down
    rw [← h_handing.map_snd, h_nested.map_snd]
  · intro h_addr
    induction h generalizing target data handed with
    | nil =>
      cases h_handing
      exact .nil target data
    | @cons c l cs ls h_l _ ih =>
      obtain ⟨h_head, h_tail⟩ := List.cons.inj h_addr
      cases h_handing with
      | cons salt below =>
        rw [h_head] at below ⊢
        refine .cons salt ?_ (ih below h_tail)
        rw [h_l.method_eq, h_l.key_eq]

/-! ### The layers of a chain -/

variable {W : World} {c : Config}

/-- The layer that a builder puts on datagrams, if it is Shadowsocks. -/
def StreamBuilder.ssUdp : StreamBuilder → Option ShadowSocksUdpStream
  | shadowsocks addr method key => some (.new addr method key)
  | _ => none

namespace StreamBuilder

/-- A layer that puts datagrams into TCP has no datagram layer below it. -/
theorem udpStack_of_uot {b : StreamBuilder} {call : Call} {io s : Stream}
    (h : b.udpLayer W call io false = .ok s) (h_uot : b.protocolType.isUot = true) :
    s.udpStack = [] := by
  cases b with
  | vmess o =>
    replace h : newVmessStream _ io = .ok s := h
    unfold newVmessStream at h
    split at h <;> cases h
    rfl
  | trojan _ _ =>
    obtain ⟨_, _, h⟩ := bind_eq_ok.mp h
    cases h
    rfl
  | shadowsocks _ _ _ | tls _ _ _ _ | ws _ _ _ _ | grpc _ _ | h2 _ _ _ _ | simpleObfs _
  | direct | blackhole => cases h_uot

/-- Over datagrams, Shadowsocks adds a layer, and the others that are not UoT add none. -/
theorem udpStack_of_not_uot {b : StreamBuilder} {call : Call} {io s : Stream}
    (h : b.udpLayer W call io false = .ok s) (h_uot : b.protocolType.isUot = false) :
    s.udpStack = b.ssUdp.toList ++ io.udpStack := by
  cases b with
  | vmess _ | trojan _ _ => cases h_uot
  | blackhole => cases h
  | shadowsocks _ _ _ | tls _ _ _ _ | ws _ _ _ _ | grpc _ _ | h2 _ _ _ _ | simpleObfs _
  | direct =>
    cases h
    rfl

/-- What is neither Shadowsocks nor UoT has no address and adds no layer. -/
theorem no_layer (b : StreamBuilder) (h_ss : b.protocolType ≠ .ss)
    (h_uot : b.protocolType.isUot = false) : b.ssUdp = none ∧ b.getAddr = none := by
  cases b with
  | vmess _ | trojan _ _ => cases h_uot
  | shadowsocks _ _ _ => exact absurd rfl h_ss
  | tls _ _ _ _ | ws _ _ _ _ | grpc _ _ | h2 _ _ _ _ | simpleObfs _ | direct | blackhole =>
    exact ⟨rfl, rfl⟩

end StreamBuilder

/-- The layers of a run over the builders of a datagram part. -/
theorem udpStack_of_udpFold {xs : List StreamBuilder}
    (h_uot : ∀ x ∈ xs, x.protocolType.isUot = false) {io s : Stream}
    (h : (udpFold W (xs.map (·, false)) io).result = .ok s) :
    s.udpStack = (xs.filterMap StreamBuilder.ssUdp).reverse ++ io.udpStack := by
  have h_run := foldRun_udpFold (W := W) (xs.map (·, false)) io
  rw [h] at h_run
  generalize (udpFold W (xs.map (·, false)) io).calls = calls at h_run
  clear h
  -- on the builders: each one that seals puts its layer on top
  induction xs generalizing io calls with
  | nil =>
    cases h_run
    rfl
  | cons x xs ih =>
    rw [List.map_cons] at h_run
    cases h_run with
    | step succeeds rest =>
      have h_x := StreamBuilder.udpStack_of_not_uot succeeds (h_uot x List.mem_cons_self)
      rw [ih (fun y hy => h_uot y (List.mem_cons_of_mem _ hy)) _ rest, h_x]
      cases h_l : x.ssUdp with
      | none => simp [h_l]
      | some l => simp [h_l]

/-- The Shadowsocks hops of a list of hops. -/
def ssHops (hops : List HopConfig) : List ShadowsocksConfig := hops.filterMap ssConfig

theorem ssHops_append (hops hops' : List HopConfig) :
    ssHops (hops ++ hops') = ssHops hops ++ ssHops hops' :=
  List.filterMap_append

theorem ssHops_of_no_addr {hops : List HopConfig} (h : ∀ x ∈ hops, x.getAddr = none) :
    ssHops hops = [] := by
  apply List.filterMap_eq_nil_iff.mpr
  intro x hx
  have h_x := h x hx
  cases x <;> first | rfl | cases h_x

theorem ssHops_addr {hops : List HopConfig} (h : ∀ x ∈ hops, x.isUot = false) :
    (ssHops hops).map ShadowsocksConfig.addr = hops.filterMap getAddr := by
  unfold ssHops
  rw [List.map_filterMap]
  apply List.filterMap_congr
  intro x hx
  have h_x := h x hx
  cases x <;> first | rfl | cases h_x

/-- Hops right of the rightmost UoT hop: their Shadowsocks builders have the methods and keys
of their configurations, and hold the addresses of the next hops. -/
theorem Makes.ssUdp {dest : Option Address} {hops : List HopConfig} {bs : List StreamBuilder}
    (h : Makes W dest hops bs) (h_uot : ∀ x ∈ hops, x.isUot = false) :
    List.Forall₂ (LayerOf W) (ssHops hops) (bs.filterMap StreamBuilder.ssUdp) ∧
      (bs.filterMap StreamBuilder.ssUdp).map ShadowSocksUdpStream.addr =
        bs.filterMap StreamBuilder.getAddr ∧
      ∀ x ∈ bs, x.protocolType.isUot = false := by
  induction h with
  | nil => exact ⟨List.Forall₂.nil, rfl, fun x hx => (by cases hx)⟩
  | @cons hop hops x bs head _ ih =>
    obtain ⟨ih_layers, ih_addr, ih_uot⟩ := ih fun y hy => h_uot y (List.mem_cons_of_mem _ hy)
    have h_hop := h_uot hop List.mem_cons_self
    have h_type := protocolType_eq head
    have h_x : x.protocolType.isUot = false := by
      rw [h_type]
      exact h_hop
    have h_all : ∀ y ∈ x :: bs, y.protocolType.isUot = false := by
      intro y hy
      rcases List.mem_cons.mp hy with rfl | hy
      · exact h_x
      · exact ih_uot y hy
    cases h_ss : hop.ssConfig with
    | none =>
      -- neither Shadowsocks nor UoT: no address, and no layer
      have h_type_ss : hop.getProtocolType ≠ .ss := by
        intro h_eq
        cases hop with
        | ss _ => cases h_ss
        | vmess _ | trojan _ | tls _ | ws _ | blackhole _ | direct _ | grpc _ | simpleObfs _
        | h2 _ => cases h_eq
      have h_none := x.no_layer (h_type ▸ h_type_ss) h_x
      unfold ssHops at ih_layers ⊢
      rw [List.filterMap_cons_none h_ss, List.filterMap_cons_none h_none.1,
        List.filterMap_cons_none h_none.2]
      exact ⟨ih_layers, ih_addr, h_all⟩
    | some cfg =>
      obtain rfl : hop = .ss cfg := by
        cases hop <;> cases h_ss
        rfl
      cases h_dest : (nextAddr hops).or dest with
      | none =>
        rw [h_dest] at head
        cases head
      | some a =>
        rw [h_dest] at head
        cases head
        unfold ssHops at ih_layers ⊢
        refine ⟨?_, ?_, h_all⟩
        · exact List.Forall₂.cons ⟨rfl, rfl, rfl, rfl⟩ ih_layers
        · exact congrArg _ ih_addr

/-- The addresses in a datagram part are the configured ones, shifted by one and around. -/
theorem headerAddrs_concat {post tail : List HopConfig} {last : HopConfig} {own a : Address}
    (h_own : last.getAddr = some own) (h_a : nextAddr (post ++ last :: tail) = some a) :
    headerAddrs post own ++ [a] = (post.filterMap getAddr ++ [own]).rotate 1 := by
  rw [nextAddr_append, nextAddr_cons, h_own, nextAddr_eq_head?] at h_a
  unfold headerAddrs
  cases h_post : post.filterMap getAddr with
  | nil =>
    rw [h_post] at h_a
    cases h_a
    simp
  | cons b rest =>
    rw [h_post] at h_a
    cases h_a
    simp

/-- Without a UoT hop nothing is marked. -/
theorem markers_of_no_uot {hops : List HopConfig} (h : ∀ x ∈ hops, x.isUot = false) :
    markers hops = hops.map fun _ => false := by
  induction hops with
  | nil => rfl
  | cons hop hops ih =>
    have h_rest : ∀ x ∈ hops, x.isUot = false := fun x hx => h x (List.mem_cons_of_mem _ hx)
    rw [markers_cons, any_isUot_eq_false h_rest, ih h_rest]
    rfl

/-- The flags of the hops up to a rightmost UoT hop and of those after it. -/
theorem markers_append (pre : List HopConfig) (u : HopConfig) {post : List HopConfig}
    (h_post : ∀ x ∈ post, x.isUot = false) :
    ∃ ms, ms.length = pre.length ∧
      markers (pre ++ u :: post) = ms ++ false :: post.map fun _ => false := by
  induction pre with
  | nil =>
    refine ⟨[], rfl, ?_⟩
    rw [List.nil_append, markers_cons, any_isUot_eq_false h_post, markers_of_no_uot h_post]
    rfl
  | cons hop pre ih =>
    obtain ⟨ms, h_len, h_ms⟩ := ih
    exact ⟨_ :: ms, congrArg Nat.succ h_len, by rw [List.cons_append, markers_cons, h_ms]; rfl⟩

theorem zip_map_false {xs : List StreamBuilder} {hops : List HopConfig}
    (h : hops.length = xs.length) :
    xs.zip (hops.map fun _ => false) = xs.map (·, false) := by
  have h_map : hops.map (fun _ => false) = xs.map fun _ => false := by
    rw [List.map_const', List.map_const', h]
  rw [h_map]
  exact List.map_prod_left_eq_zip.symm

/-- The stream after the part of a chain up to its rightmost UoT hop has no Shadowsocks layer
on top. -/
theorem udpStack_of_exit {ps : List (StreamBuilder × Bool)} {u : StreamBuilder} {io s : Stream}
    (h : (udpFold W (ps ++ [(u, false)]) io).result = .ok s)
    (h_uot : u.protocolType.isUot = true) : s.udpStack = [] := by
  unfold udpFold at h
  rw [List.foldlM_append] at h
  obtain ⟨io', _, h⟩ := Trace.bind_result_eq_ok.mp h
  obtain ⟨s', h_u, h_s⟩ := Trace.bind_result_eq_ok.mp h
  cases h_s
  exact StreamBuilder.udpStack_of_uot h_u h_uot

/-- The base of a chain has no layer. -/
theorem udpStack_of_connectBase {base : Address} {udpBindIp : IpAddr} {tcp : Bool} {io : Stream}
    (h : (ChainStreamBuilder.connectBase W base udpBindIp tcp).result = .ok io) :
    io.udpStack = [] := by
  cases tcp with
  | true =>
    obtain ⟨_, _, h⟩ := Trace.bind_result_eq_ok.mp h
    cases h
    rfl
  | false =>
    obtain ⟨_, _, h⟩ := Trace.bind_result_eq_ok.mp h
    obtain ⟨_, _, h⟩ := Trace.bind_result_eq_ok.mp h
    cases h
    rfl

/-- The builders `xs` of the datagram part `part` of a chain: the Shadowsocks ones are those
of its Shadowsocks hops, and hold their addresses shifted by one and around. -/
structure DatagramLayers (W : World) (part : List HopConfig) (xs : List StreamBuilder) :
    Prop where
  layers : List.Forall₂ (LayerOf W) (ssHops part) (xs.filterMap StreamBuilder.ssUdp)
  addr_eq : (xs.filterMap StreamBuilder.ssUdp).map ShadowSocksUdpStream.addr =
    ((ssHops part).map ShadowsocksConfig.addr).rotate 1
  not_uot : ∀ x ∈ xs, x.protocolType.isUot = false

/-- A chain whose last builder is a Shadowsocks hop: the addresses in its datagram part are shifted
by one and around. -/
theorem datagramLayers {post tail : List HopConfig} {cfg : ShadowsocksConfig} {a : Address}
    {b₂ ts : List StreamBuilder} (h_b₂ : Makes W (some cfg.addr) post b₂)
    (h_ts : Makes W none tail ts) (h_post : ∀ x ∈ post, x.isUot = false)
    (h_tail : ∀ x ∈ tail, x.getAddr = none)
    (h_a : nextAddr (post ++ .ss cfg :: tail) = some a) :
    DatagramLayers W (post ++ .ss cfg :: tail) (b₂ ++ (ts ++ [.shadowsocks a cfg.method
      (opensslBytesToKey W cfg.password.toUTF8.toList cfg.method.keyLen)])) := by
  obtain ⟨h_layers, h_addr, h_uot⟩ := h_b₂.ssUdp h_post
  obtain ⟨h_ts_layers, _, h_ts_uot⟩ := h_ts.ssUdp fun x hx => isUot_of_getAddr_none (h_tail x hx)
  have h_ts_nil : ts.filterMap StreamBuilder.ssUdp = [] := by
    rw [ssHops_of_no_addr h_tail] at h_ts_layers
    exact List.forall₂_nil_left_iff.mp h_ts_layers
  -- the last hop of Shadowsocks is the one that has an address of its own
  have h_hops : ssHops (post ++ .ss cfg :: tail) = ssHops post ++ [cfg] := by
    have h_cons : ssHops (.ss cfg :: tail) = cfg :: ssHops tail := rfl
    rw [ssHops_append, h_cons, ssHops_of_no_addr h_tail]
  have h_xs : ∀ l : StreamBuilder, (b₂ ++ (ts ++ [l])).filterMap StreamBuilder.ssUdp =
      b₂.filterMap StreamBuilder.ssUdp ++ l.ssUdp.toList := by
    intro l
    rw [List.filterMap_append, List.filterMap_append, h_ts_nil]
    cases h_l : l.ssUdp <;> simp [h_l]
  refine ⟨?_, ?_, ?_⟩
  · -- each layer for its hop, in order
    rw [h_xs, h_hops]
    exact List.rel_append h_layers (.cons ⟨rfl, rfl, rfl, rfl⟩ .nil)
  · -- the addresses are those of the headers, and the one of the last hop
    have h_own : (HopConfig.ss cfg).getAddr = some cfg.addr := rfl
    have h_last : ∀ method key, ((StreamBuilder.shadowsocks a method key).ssUdp.toList).map
        ShadowSocksUdpStream.addr = [a] := fun _ _ => rfl
    calc ((b₂ ++ (ts ++ [_])).filterMap StreamBuilder.ssUdp).map ShadowSocksUdpStream.addr
        = headerAddrs post cfg.addr ++ [a] := by
          rw [h_xs, List.map_append, h_addr, h_b₂.addressed.2, h_last]
      _ = (post.filterMap getAddr ++ [cfg.addr]).rotate 1 := headerAddrs_concat h_own h_a
      _ = ((ssHops (post ++ .ss cfg :: tail)).map ShadowsocksConfig.addr).rotate 1 := by
          rw [h_hops, List.map_append, ssHops_addr h_post]
          rfl
  · intro x hx
    rcases List.mem_append.mp hx with hx | hx
    · exact h_uot x hx
    · rcases List.mem_append.mp hx with hx | hx
      · exact h_ts_uot x hx
      · rw [List.mem_singleton.mp hx]
        rfl

/-- **The layers of a chain.** The Shadowsocks layers of a stream that `build_udp` returns are
those of the Shadowsocks hops of the datagram part, and hold their addresses shifted by one
and around. -/
theorem udpStack_of_buildUdp {hops : List HopConfig} {b : ChainStreamBuilder}
    (h : ChainOf W hops b) {D : Address} {udpBindIp : IpAddr} {s : Stream}
    (h_run : (b.buildUdp W D udpBindIp).result = .ok s)
    (h_ss : ssHops (datagramPart hops) ≠ []) :
    List.Forall₂ (LayerOf W) (ssHops (datagramPart hops)).reverse s.udpStack ∧
      s.udpStack.map ShadowSocksUdpStream.addr =
        (((ssHops (datagramPart hops)).map ShadowsocksConfig.addr).rotate 1).reverse := by
  have h_black : b.isBlackHole = false := by
    by_contra h_black
    have h_true : b.isBlackHole = true := by simpa using h_black
    unfold ChainStreamBuilder.buildUdp at h_run
    rw [h_true] at h_run
    cases h_run
  -- it is enough to find the builders of the datagram part at the end of the run
  have h_enough : ∀ (lhops : List HopConfig) (ls xs : List StreamBuilder)
      (ps : List (StreamBuilder × Bool)), UdpPlan W b D lhops ls → lhops ≠ [] →
      (b.builders ++ ls).zip (markers lhops) = ps ++ xs.map (·, false) →
      (ps = [] ∨ ∃ ps' u, ps = ps' ++ [(u, false)] ∧ u.protocolType.isUot = true) →
      DatagramLayers W (datagramPart hops) xs →
      List.Forall₂ (LayerOf W) (ssHops (datagramPart hops)).reverse s.udpStack ∧
        s.udpStack.map ShadowSocksUdpStream.addr =
          (((ssHops (datagramPart hops)).map ShadowsocksConfig.addr).rotate 1).reverse := by
    intro lhops ls xs ps h_plan h_ne h_zip h_ps h_xs
    obtain ⟨hop, hops', rfl⟩ := List.exists_cons_of_ne_nil h_ne
    have h_cons : b.buildUdpMarker = hops'.any isUot :: markers hops' := by
      rw [h_plan.marker_eq, markers_cons]
    rw [ChainStreamBuilder.buildUdp_eq h_black h_plan.lastFor h.marker_eq h_cons,
      h_plan.marker_eq, h_zip] at h_run
    obtain ⟨io, h_io, h_fold⟩ := Trace.bind_result_eq_ok.mp h_run
    have h_split : udpFold W (ps ++ xs.map (·, false)) io =
        udpFold W ps io >>= udpFold W (xs.map (·, false)) := List.foldlM_append
    rw [h_split] at h_fold
    obtain ⟨io', h_io', h_fold⟩ := Trace.bind_result_eq_ok.mp h_fold
    have h_below : io'.udpStack = [] := by
      rcases h_ps with rfl | ⟨ps', u, rfl, h_u⟩
      · cases h_io'
        exact udpStack_of_connectBase h_io
      · exact udpStack_of_exit h_io' h_u
    have h_stack := udpStack_of_udpFold h_xs.not_uot h_fold
    rw [h_below, List.append_nil] at h_stack
    rw [h_stack, List.map_reverse, h_xs.addr_eq]
    exact ⟨List.rel_reverse h_xs.layers, rfl⟩
  cases h.assembled with
  | plain no_addr _ _ =>
    have h_uot : ∀ x ∈ hops, x.isUot = false := fun x hx => isUot_of_getAddr_none (no_addr x hx)
    rw [datagramPart_of_no_uot h_uot] at h_ss
    exact absurd (ssHops_of_no_addr no_addr) h_ss
  | addressed front last tail fs ts own hops_eq last_addr no_addr makes_front makes_tail
      builders_eq last_eq =>
    have h_tail : ∀ x ∈ tail, x.isUot = false := fun x hx => isUot_of_getAddr_none (no_addr x hx)
    cases h_uot : last.isUot with
    | true =>
      -- then no addressed hop is in the datagram part
      rw [hops_eq, datagramPart_append front h_uot h_tail] at h_ss
      exact absurd (ssHops_of_no_addr no_addr) h_ss
    | false =>
      obtain ⟨cfg, rfl⟩ : ∃ cfg, last = .ss cfg := by
        cases last with
        | ss cfg => exact ⟨cfg, rfl⟩
        | vmess _ | trojan _ => cases h_uot
        | tls _ | ws _ | blackhole _ | direct _ | grpc _ | simpleObfs _ | h2 _ => cases last_addr
      cases last_addr
      have h_last := h.lastUdpAddr hops_eq rfl no_addr makes_front makes_tail builders_eq
        last_eq h_uot
      obtain ⟨a, h_a⟩ := nextAddr_datagramPart hops_eq rfl no_addr h_uot
      rw [h_a] at h_last
      have h_plan := h.udpPlan_addressed (D := D) makes_front makes_tail builders_eq last_eq
        (by rw [h_uot, h_last]; rfl)
      have h_ne : front ++ (tail ++ [HopConfig.ss cfg]) ≠ [] := by simp
      have h_rest : ∀ x ∈ tail ++ [HopConfig.ss cfg], x.isUot = false := by
        intro x hx
        rcases List.mem_append.mp hx with hx | hx
        · exact h_tail x hx
        · rw [List.mem_singleton.mp hx]
          rfl
      have h_len := h_plan.made.length_eq
      rw [builders_eq, List.append_assoc] at h_len
      rcases rightmost_uot front with h_none | ⟨pre, u, post, rfl, h_u, h_post⟩
      · -- the whole chain is the datagram part
        have h_all : ∀ x ∈ front ++ (tail ++ [HopConfig.ss cfg]), x.isUot = false := by
          intro x hx
          exact (List.mem_append.mp hx).elim (h_none x) (h_rest x)
        have h_part : datagramPart hops = front ++ .ss cfg :: tail := by
          rw [hops_eq]
          apply datagramPart_of_no_uot
          intro x hx
          refine h_all x ?_
          simp only [List.mem_append, List.mem_cons, List.not_mem_nil, or_false] at hx ⊢
          tauto
        rw [h_part] at h_a
        refine h_enough _ _ (fs ++ (ts ++ [_])) [] h_plan h_ne ?_ (Or.inl rfl)
          (h_part ▸ datagramLayers makes_front makes_tail h_none no_addr h_a)
        rw [builders_eq, List.append_assoc, markers_of_no_uot h_all, zip_map_false h_len]
        rfl
      · -- `u` is the rightmost UoT hop
        have h_post' : ∀ x ∈ post ++ (tail ++ [HopConfig.ss cfg]), x.isUot = false := by
          intro x hx
          exact (List.mem_append.mp hx).elim (h_post x) (h_rest x)
        have h_part : datagramPart hops = post ++ .ss cfg :: tail := by
          rw [hops_eq, List.append_assoc, List.cons_append]
          apply datagramPart_append pre h_u
          intro x hx
          refine h_post' x ?_
          simp only [List.mem_append, List.mem_cons, List.not_mem_nil, or_false] at hx ⊢
          tauto
        rw [h_part] at h_a
        obtain ⟨b₁, x_u, b₂, rfl, h_len₁, h_made, h_b₂⟩ := makes_front.split
        obtain ⟨ms, h_ms, h_markers⟩ := markers_append pre u h_post'
        have h_type : x_u.protocolType.isUot = true := by
          rw [protocolType_eq h_made]
          exact h_u
        refine h_enough _ _ (b₂ ++ (ts ++ [_])) (b₁.zip ms ++ [(x_u, false)]) h_plan h_ne ?_
          (Or.inr ⟨_, x_u, rfl, h_type⟩)
          (h_part ▸ datagramLayers h_b₂ makes_tail h_post no_addr h_a)
        have h_right : ∀ x : StreamBuilder, (post ++ (tail ++ [HopConfig.ss cfg])).length =
            (b₂ ++ (ts ++ [x])).length := by
          intro x
          simp only [List.length_append, List.length_cons] at h_len ⊢
          omega
        rw [builders_eq, List.append_assoc, List.append_assoc, List.append_assoc,
          List.cons_append, List.cons_append, h_markers, List.zip_append (h_len₁.trans h_ms.symm),
          List.zip_cons_cons, zip_map_false (h_right _), List.append_assoc, List.singleton_append]

theorem idle_of_layerOf {cs : List ShadowsocksConfig} {ls : List ShadowSocksUdpStream}
    (h : List.Forall₂ (LayerOf W) cs ls) : Idle ls := by
  induction h with
  | nil =>
    intro l hl
    cases hl
  | cons h_l _ ih =>
    intro l hl
    rcases List.mem_cons.mp hl with rfl | hl
    · exact h_l.idle
    · exact ih l hl

/-- A shift of addresses changes nothing exactly if they are all the same. -/
theorem rotate_addr_iff (cs : List ShadowsocksConfig) :
    (cs.map ShadowsocksConfig.addr).rotate 1 = cs.map ShadowsocksConfig.addr ↔
      ∀ x ∈ cs, ∀ y ∈ cs, x.addr = y.addr := by
  have h_nonempty : Nonempty Address := ⟨.newDummyAddress⟩
  rw [List.rotate_one_eq_self_iff_eq_replicate]
  constructor
  · rintro ⟨a, h_a⟩
    have h_all : ∀ x ∈ cs, x.addr = a := by
      intro x hx
      exact (List.eq_replicate_iff.mp h_a).2 x.addr (List.mem_map_of_mem hx)
    intro x hx y hy
    rw [h_all x hx, h_all y hy]
  · intro h_all
    cases cs with
    | nil => exact ⟨.newDummyAddress, rfl⟩
    | cons x cs =>
      refine ⟨x.addr, List.eq_replicate_iff.mpr ⟨rfl, ?_⟩⟩
      intro a h_a
      obtain ⟨y, hy, rfl⟩ := List.mem_map.mp h_a
      exact h_all y hy x List.mem_cons_self

/-- **The addresses of a UDP chain.** The packets of every datagram sent through the stream of
a chain, in each of its polls, are those that are right for the Shadowsocks hops of its
datagram part, exactly if these hops have all the same configured address. -/
theorem buildUdp_nested_iff {out : Outbounds} {b : ChainStreamBuilder} {hops : List HopConfig}
    (h : Accepts W c out b) (h_res : Resolves c out.chain hops) (D : Address)
    (udpBindIp : IpAddr) (s : Stream) (h_run : (b.buildUdp W D udpBindIp).result = .ok s)
    (h_ss : ssHops (datagramPart hops) ≠ []) (A : Aead) (jobs : List SendJob)
    (h_jobs : jobs ≠ []) :
    (∀ x ∈ runJobs A jobs s.udpStack, ∀ handed ∈ x.2,
      Nested W A (ssHops (datagramPart hops)).reverse x.1.target x.1.data handed) ↔
    ∀ x ∈ ssHops (datagramPart hops), ∀ y ∈ ssHops (datagramPart hops), x.addr = y.addr := by
  obtain ⟨h_layers, h_addr⟩ := udpStack_of_buildUdp (h.chainOf h_res) h_run h_ss
  generalize ssHops (datagramPart hops) = cs at h_layers h_addr ⊢
  have h_idle := idle_of_layerOf h_layers
  -- the packets of a datagram are right if the shift changes nothing
  have h_one : ∀ {target : Address} {data : List UInt8} {handed : List (List UInt8 × Address)},
      Handing A s.udpStack target data handed →
      (Nested W A cs.reverse target data handed ↔
        (cs.map ShadowsocksConfig.addr).rotate 1 = cs.map ShadowsocksConfig.addr) := by
    intro target data handed h_handing
    rw [nested_iff h_layers h_handing, h_addr, List.map_reverse, List.reverse_inj]
  rw [← rotate_addr_iff]
  constructor
  · intro h_all
    obtain ⟨job, jobs', rfl⟩ := List.exists_cons_of_ne_nil h_jobs
    obtain ⟨handed, h_handing, h_job⟩ := runJob_eq (A := A) h_idle job
    refine (h_one h_handing).mp (h_all (job, (runJob A job s.udpStack).1) ?_ handed ?_)
    · exact List.mem_cons_self
    · rw [h_job]
      simp
  · rintro h_eq ⟨job, polls⟩ h_mem handed h_handed
    obtain ⟨handed', h_handing, rfl⟩ := mem_runJobs h_idle h_mem
    rw [List.eq_of_mem_replicate h_handed]
    exact (h_one h_handing).mpr h_eq

/-! #### A pair of servers -/

/-- A toy AEAD: messages stay as they are, with an empty tag. -/
def Aead.plain : Aead where
  hkdfSha1 _ _ := List.replicate 64 0
  encryptInPlace _ _ _ message := message ++ List.replicate tagSize 0
  decryptInPlace _ _ _ buffer := some (buffer.take (buffer.length - tagSize))

/-- A DNS query to `server 53`, sent at the second poll. -/
def Config.query : SendJob where
  target := server 53
  data := [1, 2, 3]
  pendings := [fun _ => []]
  salts _ := []
  answer := .ok 3

/-- A chain with one Shadowsocks hop: what is handed down of a query is for its server. -/
theorem buildUdp_nested_late : ∃ b s, Accepts .calm .sample ⟨["s", "t"], "late"⟩ b ∧
    (b.buildUdp .calm (Config.server 53) (.v4 0)).result = .ok s ∧
    ∀ x ∈ runJobs .plain [Config.query] s.udpStack, ∀ handed ∈ x.2,
      Nested .calm .plain [⟨Config.server 8388, "pw", .none, "s"⟩] x.1.target x.1.data
        handed := by
  have h_accepts : ∃ b, Accepts .calm .sample ⟨["s", "t"], "late"⟩ b :=
    exists_accepts rfl (by decide)
  obtain ⟨b, h⟩ := h_accepts
  have h_built := h.built
  cases h_built
  have h_res : Resolves .sample ["s", "t"] [Config.sampleSs, Config.sampleTls] :=
    .cons ⟨_, rfl, rfl⟩ (.cons ⟨_, rfl, rfl⟩ .nil)
  refine ⟨_, _, h, rfl, (buildUdp_nested_iff h h_res (Config.server 53) (.v4 0) _ rfl ?_ .plain
    [Config.query] ?_).mpr ?_⟩
  · decide
  · exact List.cons_ne_nil _ _
  · decide

/-- Of two servers, the layer of the second hands its packets to the first. -/
theorem buildUdp_nested_pair :
    ¬ ∀ (W : World) (c : Config) (out : Outbounds) (b : ChainStreamBuilder)
        (hops : List HopConfig) (D : Address) (udpBindIp : IpAddr) (s : Stream) (A : Aead)
        (jobs : List SendJob),
      Accepts W c out b → Resolves c out.chain hops →
      (b.buildUdp W D udpBindIp).result = .ok s → ssHops (datagramPart hops) ≠ [] →
      ∀ x ∈ runJobs A jobs s.udpStack, ∀ handed ∈ x.2,
        Nested W A (ssHops (datagramPart hops)).reverse x.1.target x.1.data handed := by
  intro h
  obtain ⟨b, h_b⟩ := Config.sample_pair
  have h_built := h_b.built
  cases h_built
  have h_nested := h .calm .sample _ _ [Config.sampleTls, Config.sampleSs, Config.sampleSs2]
    (Config.server 53) (.v4 0) _ .plain [Config.query] h_b Config.sample_pair_resolves rfl
    (by decide) _ List.mem_cons_self _ List.mem_cons_self
  have h_addr := h_nested.map_snd
  revert h_addr
  decide

end V2ray
