import Mathlib.Data.List.AList
import Mathlib.Tactic.Common
import V2rayRust.Proxy.Chain

/-!
# What `build_inner_map` makes of a chain

The two passes over a chain agree on which hops carry an address: all that is left of them
is the list of hops, cut at its last addressed hop. `Assembled` says so: the hops before
it are made for the address of the addressed hop that follows, the one itself becomes the
last builder, and the hops after it carry no address (`assembled_of_buildOutbound`).
-/

namespace V2ray

variable {W : World} {c : Config}

/-! ### Hops -/

namespace HopConfig

theorem getProtocolType_eq_of_hopAt {p : ProtocolType × ℕ} {hop : HopConfig}
    (h : c.hopAt p = .ok hop) : hop.getProtocolType = p.1 := by
  obtain ⟨ty, i⟩ := p
  cases ty <;>
  · unfold Config.hopAt at h
    obtain ⟨x, _, hx⟩ := bind_eq_ok.mp h
    cases hx
    rfl

/-- The address is only read by the hops that have one. -/
theorem toChainableStreamBuilder_of_getAddr_none {hop : HopConfig} (h : hop.getAddr = none)
    (a a' : Option Address) :
    hop.toChainableStreamBuilder W a = hop.toChainableStreamBuilder W a' := by
  cases hop with
  | vmess _ | trojan _ | ss _ => cases h
  | tls _ | ws _ | blackhole _ | direct _ | grpc _ | simpleObfs _ | h2 _ => rfl

/-- A hop with an address can be made for any destination, which its builder keeps. -/
theorem toChainableStreamBuilder_of_getAddr_some {hop : HopConfig} {own : Address}
    (h : hop.getAddr = some own) (a : Address) :
    ∃ b, hop.toChainableStreamBuilder W (some a) = .ok b ∧ b.getAddr = some a := by
  cases hop with
  | vmess _ | trojan _ | ss _ => exact ⟨_, rfl, rfl⟩
  | tls _ | ws _ | blackhole _ | direct _ | grpc _ | simpleObfs _ | h2 _ => cases h

/-- The builder of a hop is of its protocol. -/
theorem protocolType_eq {hop : HopConfig} {a : Option Address} {b : StreamBuilder}
    (h : hop.toChainableStreamBuilder W a = .ok b) : b.protocolType = hop.getProtocolType := by
  cases hop with
  | vmess _ | trojan _ | ss _ =>
    cases a with
    | none => cases h
    | some a => cases h; rfl
  | tls c =>
    replace h : newTlsBuilder W c = .ok b := h
    unfold newTlsBuilder at h
    split at h <;> cases h
    rfl
  | ws _ =>
    cases h
    unfold newWsBuilder
    split
    · rfl
    · split <;> rfl
  | blackhole _ | direct _ | grpc _ | simpleObfs _ | h2 _ => cases h; rfl

/-- A builder has an address exactly if its hop has one. -/
theorem getAddr_isSome_eq {hop : HopConfig} {a : Option Address} {b : StreamBuilder}
    (h : hop.toChainableStreamBuilder W a = .ok b) : b.getAddr.isSome = hop.getAddr.isSome := by
  have h_type := protocolType_eq h
  clear h
  cases hop <;> cases b <;> first | rfl | cases h_type

/-- The address of the first addressed hop. -/
def nextAddr (hops : List HopConfig) : Option Address := hops.findSome? getAddr

@[simp] theorem nextAddr_nil : nextAddr [] = none := rfl

theorem nextAddr_cons (hop : HopConfig) (hops : List HopConfig) :
    nextAddr (hop :: hops) = hop.getAddr.or (nextAddr hops) := by
  unfold nextAddr
  rw [List.findSome?_cons]
  cases hop.getAddr <;> rfl

theorem nextAddr_eq_head? (hops : List HopConfig) :
    nextAddr hops = (hops.filterMap getAddr).head? :=
  List.head?_filterMap.symm

theorem nextAddr_append (hops hops' : List HopConfig) :
    nextAddr (hops ++ hops') = (nextAddr hops).or (nextAddr hops') :=
  List.findSome?_append

theorem nextAddr_eq_none {hops : List HopConfig} (h : ∀ x ∈ hops, x.getAddr = none) :
    nextAddr hops = none :=
  List.findSome?_eq_none_iff.mpr h

end HopConfig

open HopConfig

/-- The builders of `hops`, each addressed hop made for the next one's address and the last
one for `dest`. -/
inductive Makes (W : World) (dest : Option Address) :
    List HopConfig → List StreamBuilder → Prop
  | nil : Makes W dest [] []
  | cons {hop : HopConfig} {hops : List HopConfig} {b : StreamBuilder}
      {bs : List StreamBuilder}
      (head : hop.toChainableStreamBuilder W ((nextAddr hops).or dest) = .ok b)
      (tail : Makes W dest hops bs) : Makes W dest (hop :: hops) (b :: bs)

namespace Makes

variable {dest : Option Address} {hops hops' : List HopConfig} {bs bs' : List StreamBuilder}

/-- The builders of two stretches of hops: the first stretch is made for the address that comes
next. -/
theorem append (h : Makes W ((nextAddr hops').or dest) hops bs) (h' : Makes W dest hops' bs') :
    Makes W dest (hops ++ hops') (bs ++ bs') := by
  induction h with
  | nil => exact h'
  | @cons hop hops _ _ head _ ih =>
    have h_next : (nextAddr (hops ++ hops')).or dest =
        (nextAddr hops).or ((nextAddr hops').or dest) := by
      rw [nextAddr_append, Option.or_assoc]
    exact cons (h_next ▸ head) ih

/-- Hops without an address are made alike for every destination. -/
theorem of_no_addr (h : Makes W dest hops bs) (hnone : ∀ x ∈ hops, x.getAddr = none)
    (dest' : Option Address) : Makes W dest' hops bs := by
  induction h with
  | nil => exact nil
  | cons head _ ih =>
    refine cons ?_ (ih fun x hx => hnone x (List.mem_cons_of_mem _ hx))
    rw [toChainableStreamBuilder_of_getAddr_none (hnone _ List.mem_cons_self)]
    exact head

/-- Builders of hops without an address have none. -/
theorem getAddr_eq_none (h : Makes W dest hops bs) (hnone : ∀ x ∈ hops, x.getAddr = none) :
    ∀ x ∈ bs, x.getAddr = none := by
  induction h with
  | nil => exact fun _ hx => (by cases hx)
  | cons head _ ih =>
    intro x hx
    rcases List.mem_cons.mp hx with rfl | hx
    · have h_some := getAddr_isSome_eq head
      rw [hnone _ List.mem_cons_self] at h_some
      exact Option.not_isSome_iff_eq_none.mp (by rw [h_some]; exact Bool.false_ne_true)
    · exact ih (fun y hy => hnone y (List.mem_cons_of_mem _ hy)) x hx

theorem protocolTypes (h : Makes W dest hops bs) :
    bs.map StreamBuilder.protocolType = hops.map getProtocolType := by
  induction h with
  | nil => rfl
  | cons head _ ih => rw [List.map_cons, List.map_cons, ih, protocolType_eq head]

end Makes

/-! ### The passes -/

/-- The hops that the tags of a chain name. -/
def Resolves (c : Config) : List String → List HopConfig → Prop :=
  List.Forall₂ fun t hop => ∃ p, c.configMap.lookup t = some p ∧ c.hopAt p = .ok hop

/-- How the hops of a chain are laid out in its builder. -/
inductive Assembled (W : World) (hops : List HopConfig) (b : ChainStreamBuilder) : Prop
  /-- no hop has an address -/
  | plain (no_addr : ∀ x ∈ hops, x.getAddr = none) (makes : Makes W none hops b.builders)
      (last_eq : b.lastBuilder = none)
  /-- `last` is the last hop with an address -/
  | addressed (front : List HopConfig) (last : HopConfig) (tail : List HopConfig)
      (fs ts : List StreamBuilder) (own : Address) (hops_eq : hops = front ++ last :: tail)
      (last_addr : last.getAddr = some own) (no_addr : ∀ x ∈ tail, x.getAddr = none)
      (makes_front : Makes W (some own) front fs) (makes_tail : Makes W none tail ts)
      (builders_eq : b.builders = fs ++ ts) (last_eq : b.lastBuilder = some last)

section Passes

variable {outTag t : String} {chain : List String} {hop : HopConfig} {p : ProtocolType × ℕ}

/-- The first pass leaves the addresses of the chain in order, the first one in the
builder. -/
theorem collectAddrs_spec {b b' : ChainStreamBuilder} {addrs addrs' : List Address}
    (h : c.collectAddrs c.configMap outTag chain b addrs = .ok (b', addrs')) :
    ∃ hops, Resolves c chain hops ∧
      b' = { b with remoteAddr := b.remoteAddr.or (nextAddr hops) } ∧
      addrs' = addrs ++
        if b.remoteAddr = none then (hops.filterMap getAddr).tail
        else hops.filterMap getAddr := by
  -- on the tags; the first address found goes into the builder, the others into the list
  induction chain generalizing b addrs with
  | nil =>
    cases h
    refine ⟨[], List.Forall₂.nil, ?_, ?_⟩
    · rw [nextAddr_nil, Option.or_none]
    · split <;> exact (List.append_nil _).symm
  | cons t chain ih =>
    unfold Config.collectAddrs at h
    cases h_look : c.configMap.lookup t with
    | none => rw [h_look] at h; cases h
    | some p =>
      rw [h_look] at h
      obtain ⟨hop, h_hop, h⟩ := bind_eq_ok.mp h
      have h_at : c.hopAt p = .ok hop := by
        cases h_res : c.hopAt p with
        | error e => rw [h_res] at h_hop; cases h_hop
        | ok x => rw [h_res] at h_hop; cases h_hop; rfl
      cases h_addr : hop.getAddr with
      | none =>
        rw [h_addr] at h
        obtain ⟨hops, h_res, h_b, h_addrs⟩ := ih h
        refine ⟨hop :: hops, List.Forall₂.cons ⟨p, h_look, h_at⟩ h_res, ?_, ?_⟩
        · rw [h_b, nextAddr_cons, h_addr, Option.none_or]
        · rw [h_addrs, List.filterMap_cons_none h_addr]
      | some a =>
        rw [h_addr] at h
        cases h_remote : b.remoteAddr with
        | none =>
          rw [h_remote] at h
          obtain ⟨hops, h_res, h_b, h_addrs⟩ := ih (b := b.pushRemoteAddr a) h
          refine ⟨hop :: hops, List.Forall₂.cons ⟨p, h_look, h_at⟩ h_res, ?_, ?_⟩
          · rw [h_b, nextAddr_cons, h_addr]
            rfl
          · rw [h_addrs, List.filterMap_cons_some h_addr]
            rfl
        | some r =>
          rw [h_remote] at h
          obtain ⟨hops, h_res, h_b, h_addrs⟩ := ih h
          refine ⟨hop :: hops, List.Forall₂.cons ⟨p, h_look, h_at⟩ h_res, ?_, ?_⟩
          · rw [h_b, h_remote]
            rfl
          · rw [h_addrs, h_remote, List.filterMap_cons_some h_addr]
            simp

theorem ofFault_eq_ok {α : Type} {x : Except Fault α} {a : α} :
    Stop.ofFault x = .ok a ↔ x = .ok a := by
  cases x with
  | error e => exact ⟨fun h => (by cases h), fun h => (by cases h)⟩
  | ok y => exact ⟨fun h => (by cases h; rfl), fun h => (by cases h; rfl)⟩

/-- A hop with an address is built with the next address, or kept for the end if there is none. -/
theorem pushBuilders_of_addr {b : ChainStreamBuilder} {own : Address}
    (h_look : c.configMap.lookup t = some p) (h_at : c.hopAt p = .ok hop)
    (h_addr : hop.getAddr = some own) (addrIter : List Address) :
    c.pushBuilders W c.configMap (t :: chain) b addrIter =
      match addrIter with
      | [] => c.pushBuilders W c.configMap chain (b.pushLastBuilder hop) []
      | nextAddr :: addrIter =>
        hop.toChainableStreamBuilder W (some nextAddr) >>= fun x =>
          c.pushBuilders W c.configMap chain (b.push x) addrIter := by
  have h_type := getProtocolType_eq_of_hopAt h_at
  obtain ⟨ty, i⟩ := p
  rw [Config.pushBuilders, h_look]
  dsimp only
  rw [ofFault_eq_ok.mpr h_at, ok_bind]
  cases hop with
  | vmess _ | trojan _ | ss _ => cases h_type; rfl
  | tls _ | ws _ | blackhole _ | direct _ | grpc _ | simpleObfs _ | h2 _ => cases h_addr

/-- A hop without an address is built at once, and takes none of the addresses. -/
theorem pushBuilders_of_no_addr {b : ChainStreamBuilder}
    (h_look : c.configMap.lookup t = some p) (h_at : c.hopAt p = .ok hop)
    (h_addr : hop.getAddr = none) (addrIter : List Address) :
    c.pushBuilders W c.configMap (t :: chain) b addrIter =
      hop.toChainableStreamBuilder W none >>= fun x =>
        c.pushBuilders W c.configMap chain (b.push x) addrIter := by
  have h_type := getProtocolType_eq_of_hopAt h_at
  obtain ⟨ty, i⟩ := p
  rw [Config.pushBuilders, h_look]
  dsimp only
  rw [ofFault_eq_ok.mpr h_at, ok_bind]
  cases hop with
  | vmess _ | trojan _ | ss _ => cases h_addr
  | tls _ | ws _ | blackhole _ | direct _ | grpc _ | simpleObfs _ | h2 _ => cases h_type; rfl

/-- The second pass, when the addresses left are those of the hops left but for the first
one: it takes the hops apart at the last one with an address. -/
theorem pushBuilders_spec {hops : List HopConfig} (h_res : Resolves c chain hops)
    {b b' : ChainStreamBuilder}
    (h : c.pushBuilders W c.configMap chain b (hops.filterMap getAddr).tail = .ok b') :
    ((∀ x ∈ hops, x.getAddr = none) ∧ ∃ bs, Makes W none hops bs ∧
        b' = { b with builders := b.builders ++ bs }) ∨
      ∃ front last tail fs ts own, hops = front ++ last :: tail ∧ last.getAddr = some own ∧
        (∀ x ∈ tail, x.getAddr = none) ∧ Makes W (some own) front fs ∧ Makes W none tail ts ∧
        b' = { b with builders := b.builders ++ (fs ++ ts), lastBuilder := some last } := by
  induction h_res generalizing b with
  | nil =>
    cases h
    refine Or.inl ⟨fun _ hx => (by cases hx), [], Makes.nil, ?_⟩
    rw [List.append_nil]
  | @cons t hop chain hops h_hop h_res ih =>
    obtain ⟨p, h_look, h_at⟩ := h_hop
    cases h_addr : hop.getAddr with
    | none =>
      rw [List.filterMap_cons_none h_addr, pushBuilders_of_no_addr h_look h_at h_addr] at h
      obtain ⟨x, h_x, h⟩ := bind_eq_ok.mp h
      have h_make : ∀ a, hop.toChainableStreamBuilder W a = .ok x := fun a =>
        (toChainableStreamBuilder_of_getAddr_none h_addr a none).trans h_x
      rcases ih h with ⟨h_none, bs, h_bs, rfl⟩ |
        ⟨front, last, tail, fs, ts, own, h_eq, h_last, h_tail, h_fs, h_ts, rfl⟩
      · refine Or.inl ⟨?_, x :: bs, Makes.cons (h_make _) h_bs, ?_⟩
        · rintro y hy
          rcases List.mem_cons.mp hy with rfl | hy
          · exact h_addr
          · exact h_none y hy
        · simp [ChainStreamBuilder.push]
      · refine Or.inr ⟨hop :: front, last, tail, x :: fs, ts, own, by rw [h_eq]; rfl, h_last,
          h_tail, Makes.cons (h_make _) h_fs, h_ts, ?_⟩
        simp [ChainStreamBuilder.push]
    | some own =>
      rw [List.filterMap_cons_some h_addr, List.tail_cons,
        pushBuilders_of_addr h_look h_at h_addr] at h
      cases h_rest : hops.filterMap getAddr with
      | nil =>
        -- this is the last addressed hop
        rw [h_rest] at h
        have h_none : ∀ x ∈ hops, x.getAddr = none := List.filterMap_eq_nil_iff.mp h_rest
        rcases ih (b := b.pushLastBuilder hop) (by rw [h_rest]; exact h) with
          ⟨_, bs, h_bs, rfl⟩ | ⟨front, last, tail, _, _, own', h_eq, h_last, _⟩
        · exact Or.inr ⟨[], hop, hops, [], bs, own, rfl, h_addr, h_none, Makes.nil, h_bs, rfl⟩
        · have h_mem : last ∈ hops := by
            rw [h_eq]
            exact List.mem_append_right _ List.mem_cons_self
          rw [h_none last h_mem] at h_last
          cases h_last
      | cons next rest =>
        rw [h_rest] at h
        obtain ⟨x, h_x, h⟩ := bind_eq_ok.mp h
        rcases ih (b := b.push x) (by rw [h_rest]; exact h) with
          ⟨h_none, _⟩ | ⟨front, last, tail, fs, ts, own', h_eq, h_last, h_tail, h_fs, h_ts, rfl⟩
        · rw [List.filterMap_eq_nil_iff.mpr h_none] at h_rest
          cases h_rest
        · have h_next : (nextAddr front).or (some own') = some next := by
            have h_head := nextAddr_eq_head? hops
            rw [h_rest, h_eq, nextAddr_append, nextAddr_cons, h_last] at h_head
            exact h_head
          refine Or.inr ⟨hop :: front, last, tail, x :: fs, ts, own', by rw [h_eq]; rfl, h_last,
            h_tail, Makes.cons (h_next ▸ h_x) h_fs, h_ts, ?_⟩
          simp [ChainStreamBuilder.push]

end Passes

/-! ### The markers -/

/-- For each type, whether one further to the right is UoT. -/
def uotRight : List ProtocolType → List Bool
  | [] => []
  | _ :: types => types.any ProtocolType.isUot :: uotRight types

@[simp] theorem length_uotRight (types : List ProtocolType) :
    (uotRight types).length = types.length := by
  induction types with
  | nil => rfl
  | cons _ _ ih => exact congrArg Nat.succ ih

namespace ChainStreamBuilder

/-- One round of the marker loop: it pushes what it has seen so far. -/
theorem buildUdpMarkerLoop_cons (ty : ProtocolType) (iter : List ProtocolType) (isUot : Bool)
    (bitVec : List Bool) :
    buildUdpMarkerLoop (ty :: iter) isUot bitVec =
      buildUdpMarkerLoop iter (isUot || ty.isUot) (bitVec ++ [isUot]) := by
  rw [buildUdpMarkerLoop]
  cases isUot <;> cases ty.isUot <;> rfl

/-- The last builder is marked if it or one before it is UoT. -/
theorem buildUdpMarkerLoop_concat (iter : List ProtocolType) (ty : ProtocolType) (isUot : Bool)
    (bitVec : List Bool) :
    buildUdpMarkerLoop (iter ++ [ty]) isUot bitVec =
      buildUdpMarkerLoop iter isUot bitVec ++ [isUot || iter.any ProtocolType.isUot] := by
  induction iter generalizing isUot bitVec with
  | nil =>
    rw [List.nil_append, buildUdpMarkerLoop_cons, List.any_nil, Bool.or_false]
    rfl
  | cons x iter ih =>
    rw [List.cons_append, buildUdpMarkerLoop_cons, ih, buildUdpMarkerLoop_cons, List.any_cons,
      Bool.or_assoc]

/-- **The marker of a layer** tells whether a layer to its right is UoT. -/
theorem buildUdpMarkerImpl_eq (types : List ProtocolType) :
    buildUdpMarkerImpl [] types.reverse = uotRight types := by
  unfold buildUdpMarkerImpl
  induction types with
  | nil => rfl
  | cons ty types ih =>
    rw [List.reverse_cons, buildUdpMarkerLoop_concat, List.reverse_append, ih, List.any_reverse]
    rfl

/-- The layers in the order in which they are built: the builders, then the last one. -/
def layerTypes (b : ChainStreamBuilder) : List ProtocolType :=
  b.builders.map StreamBuilder.protocolType ++
    (b.lastBuilder.map HopConfig.getProtocolType).toList

theorem protocolTypeIter_eq (b : ChainStreamBuilder) :
    b.protocolTypeIter = b.layerTypes.reverse := by
  unfold protocolTypeIter layerTypes
  rw [List.reverse_append]
  cases b.lastBuilder <;> rfl

/-- What `build_inner_markers` sets, and what it leaves. -/
structure Marked (b b' : ChainStreamBuilder) : Prop where
  builders_eq : b'.builders = b.builders
  remoteAddr_eq : b'.remoteAddr = b.remoteAddr
  lastBuilder_eq : b'.lastBuilder = b.lastBuilder
  isBlackHole_eq : b'.isBlackHole = b.layerTypes.any (· = .blackhole)
  marker_eq : b'.buildUdpMarker = uotRight b.layerTypes
  /-- the address for a last builder that is not UoT -/
  lastUdpAddr_eq : match b.protocolTypeIter.findIdx? ProtocolType.isUot with
    | some 0 => b'.lastUdpAddr = b.lastUdpAddr
    | some (i + 1) => ∃ x, b.builders[b.builders.length - (i + 1)]? = some x ∧
        b'.lastUdpAddr = x.getAddr
    | none => b'.lastUdpAddr = b.remoteAddr

/-- What `build_inner_markers` leaves: the markers, and everything else as it was. -/
theorem marked_of_buildInnerMarkers {b b' : ChainStreamBuilder} (hm : b.buildUdpMarker = [])
    (h : b.buildInnerMarkers = .ok b') : Marked b b' := by
  have h_black : b.protocolTypeIter.any (· = .blackhole) = b.layerTypes.any (· = .blackhole) := by
    rw [protocolTypeIter_eq, List.any_reverse]
  -- the marker is computed from the last layer back
  have h_marker : buildUdpMarkerImpl b.buildUdpMarker b.protocolTypeIter =
      uotRight b.layerTypes := by
    rw [hm, protocolTypeIter_eq, buildUdpMarkerImpl_eq]
  unfold buildInnerMarkers at h
  dsimp only at h
  -- the two fields that are set first are not among those that are read
  have h_iter : ∀ x y, ({ b with buildUdpMarker := x, isBlackHole := y } :
      ChainStreamBuilder).protocolTypeIter = b.protocolTypeIter := fun _ _ => rfl
  rw [h_iter] at h
  cases h_pos : b.protocolTypeIter.findIdx? ProtocolType.isUot with
  | none =>
    rw [h_pos] at h
    cases h
    exact ⟨rfl, rfl, rfl, h_black, h_marker, by rw [h_pos]⟩
  | some i =>
    rw [h_pos] at h
    cases i with
    | zero =>
      cases h
      exact ⟨rfl, rfl, rfl, h_black, h_marker, by rw [h_pos]⟩
    | succ i =>
      obtain ⟨x, h_x, h⟩ := bind_eq_ok.mp h
      cases h
      exact ⟨rfl, rfl, rfl, h_black, h_marker, by
        rw [h_pos]
        exact ⟨x, getElem?_of_index h_x, rfl⟩⟩

end ChainStreamBuilder

/-! ### Accepted outbounds -/

/-- `build_inner_map` accepts the configuration, and `b` is what it makes of `out`. -/
structure Accepts (W : World) (c : Config) (out : Outbounds) (b : ChainStreamBuilder) :
    Prop where
  accepted : ∃ map, c.buildInnerMap W = .ok map
  mem : out ∈ c.outbounds
  built : c.buildOutbound W c.configMap out = .ok b

/-- A chain of tags is one chain of hops. -/
theorem Resolves.unique {chain : List String} {hops hops' : List HopConfig}
    (h : Resolves c chain hops) (h' : Resolves c chain hops') : hops = hops' := by
  induction h generalizing hops' with
  | nil => cases h'; rfl
  | cons h_hop _ ih =>
    cases h' with
    | cons h_hop' h_res' =>
      obtain ⟨p, h_look, h_at⟩ := h_hop
      obtain ⟨p', h_look', h_at'⟩ := h_hop'
      rw [h_look] at h_look'
      cases h_look'
      rw [h_at] at h_at'
      cases h_at'
      rw [ih h_res']

/-- What is known of the builder of a chain. -/
structure ChainOf (W : World) (hops : List HopConfig) (b : ChainStreamBuilder) : Prop where
  assembled : Assembled W hops b
  remoteAddr_eq : b.remoteAddr = nextAddr hops
  isBlackHole_eq : b.isBlackHole = hops.any fun hop => hop.getProtocolType = .blackhole
  marker_eq : b.buildUdpMarker = uotRight b.layerTypes
  lastUdpAddr_eq : match b.protocolTypeIter.findIdx? ProtocolType.isUot with
    | some 0 => b.lastUdpAddr = none
    | some (i + 1) => ∃ x, b.builders[b.builders.length - (i + 1)]? = some x ∧
        b.lastUdpAddr = x.getAddr
    | none => b.lastUdpAddr = nextAddr hops

/-- The layers are the hops, in another order if hops follow the last addressed one. -/
theorem Assembled.layerTypes_perm {hops : List HopConfig} {b : ChainStreamBuilder}
    (h : Assembled W hops b) : b.layerTypes.Perm (hops.map getProtocolType) := by
  unfold ChainStreamBuilder.layerTypes
  cases h with
  | plain _ makes last_eq =>
    rw [last_eq, makes.protocolTypes]
    exact (List.append_nil _).symm ▸ List.Perm.refl _
  | addressed front last tail fs ts own hops_eq _ _ makes_front makes_tail builders_eq last_eq =>
    rw [last_eq, builders_eq, List.map_append, makes_front.protocolTypes,
      makes_tail.protocolTypes, hops_eq, List.map_append, List.map_cons, List.append_assoc]
    exact List.Perm.append_left _ (List.perm_append_singleton _ _)

/-- **What `build_inner_map` makes of a chain.** -/
theorem chainOf_of_buildOutbound {out : Outbounds} {b : ChainStreamBuilder}
    (h : c.buildOutbound W c.configMap out = .ok b) :
    ∃ hops, Resolves c out.chain hops ∧ ChainOf W hops b := by
  unfold Config.buildOutbound at h
  obtain ⟨⟨b₁, addrs⟩, h₁, h⟩ := bind_eq_ok.mp h
  obtain ⟨b₂, h₂, h₃⟩ := bind_eq_ok.mp h
  -- the hops of the chain and the address of the first of them that has one
  obtain ⟨hops, h_res, rfl, h_addrs⟩ := collectAddrs_spec h₁
  have h_tail : addrs = (hops.filterMap getAddr).tail := h_addrs
  rw [h_tail] at h₂
  have h_spec := pushBuilders_spec h_res h₂
  have h_fields : b₂.remoteAddr = nextAddr hops ∧ b₂.buildUdpMarker = [] ∧
      b₂.lastUdpAddr = none ∧ Assembled W hops b₂ := by
    rcases h_spec with ⟨h_none, bs, h_bs, rfl⟩ |
      ⟨front, last, tail, fs, ts, own, h_eq, h_last, h_none, h_fs, h_ts, rfl⟩
    · exact ⟨Option.none_or, rfl, rfl, .plain h_none h_bs rfl⟩
    · exact ⟨Option.none_or, rfl, rfl,
        .addressed front last tail fs ts own h_eq h_last h_none h_fs h_ts rfl rfl⟩
  obtain ⟨h_remote, h_marker, h_udp, h_asm⟩ := h_fields
  have h_marked := ChainStreamBuilder.marked_of_buildInnerMarkers h_marker (ofFault_eq_ok.mp h₃)
  -- marking changes no layer
  have h_types : b.layerTypes = b₂.layerTypes := by
    unfold ChainStreamBuilder.layerTypes
    rw [h_marked.builders_eq, h_marked.lastBuilder_eq]
  have h_iter : b.protocolTypeIter = b₂.protocolTypeIter := by
    rw [ChainStreamBuilder.protocolTypeIter_eq, h_types, ChainStreamBuilder.protocolTypeIter_eq]
  refine ⟨hops, h_res, ?_, ?_, ?_, ?_, ?_⟩
  · cases h_asm with
    | plain no_addr makes last_eq =>
      exact .plain no_addr (h_marked.builders_eq ▸ makes) (h_marked.lastBuilder_eq.trans last_eq)
    | addressed front last tail fs ts own hops_eq last_addr no_addr makes_front makes_tail
        builders_eq last_eq =>
      exact .addressed front last tail fs ts own hops_eq last_addr no_addr makes_front makes_tail
        (h_marked.builders_eq.trans builders_eq) (h_marked.lastBuilder_eq.trans last_eq)
  · rw [h_marked.remoteAddr_eq, h_remote]
  · rw [h_marked.isBlackHole_eq, h_asm.layerTypes_perm.any_eq, List.any_map]
    rfl
  · rw [h_marked.marker_eq, h_types]
  · have h_last := h_marked.lastUdpAddr_eq
    rw [h_iter, h_marked.builders_eq]
    rw [h_udp, h_remote] at h_last
    exact h_last

theorem Accepts.chainOf {out : Outbounds} {b : ChainStreamBuilder} (h : Accepts W c out b)
    {hops : List HopConfig} (h_res : Resolves c out.chain hops) : ChainOf W hops b := by
  obtain ⟨hops', h_res', h_chain⟩ := chainOf_of_buildOutbound h.built
  rw [h_res.unique h_res']
  exact h_chain

/-- **The loop over the outbounds**: what holds of the empty map, and is kept by every chain that
is inserted, holds of the inner map. -/
theorem innerMap_induction {P : List Outbounds → Config.InnerMap → Prop} {map : Config.InnerMap}
    (h_init : P [] ∅)
    (h_step : ∀ outs m out b, P outs m → c.buildOutbound W c.configMap out = .ok b →
      P (outs ++ [out]) (m.insert out.tag b))
    (h : c.buildInnerMap W = .ok map) : P c.outbounds map := by
  refine foldlM_induction h_init ?_ h
  intro outs m out m' ih h_out
  obtain ⟨b, h_b, h_m'⟩ := bind_eq_ok.mp h_out
  cases h_m'
  exact h_step outs m out b ih h_b

/-- Every outbound of an accepted configuration has its chain. -/
theorem exists_accepts {map : Config.InnerMap} (h : c.buildInnerMap W = .ok map)
    {out : Outbounds} (hout : out ∈ c.outbounds) : ∃ b, Accepts W c out b := by
  have h_built : ∀ out ∈ c.outbounds, ∃ b, c.buildOutbound W c.configMap out = .ok b := by
    refine innerMap_induction (P := fun outs _ =>
      ∀ out ∈ outs, ∃ b, c.buildOutbound W c.configMap out = .ok b) (List.forall_mem_nil _) ?_ h
    intro outs _ o b ih h_b out h_out
    rcases List.mem_append.mp h_out with h_out | h_out
    · exact ih out h_out
    · obtain rfl := List.mem_singleton.mp h_out
      exact ⟨b, h_b⟩
  obtain ⟨b, h_b⟩ := h_built out hout
  exact ⟨b, ⟨map, h⟩, hout, h_b⟩

end V2ray
