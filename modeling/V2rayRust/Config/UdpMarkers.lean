import V2rayRust.Config.InnerMap
import V2rayRust.Lib.Search

/-!
# The markers of a chain

`build_inner_markers` on a chain that has just been put together, by `push` and its siblings in
whatever order. Every layer gets the right marker, with a last builder or without one
(`marker_iff`). The address for the last builder is looked for at a distance from the right that
counts the last builder; without one it is the address of the builder after the one that is
meant, and only chains in which this is no other pass (`Locates`, `marks_iff`). The chains of an
accepted configuration are among them (`Assembled.locates`).
-/

namespace V2ray

/-! ### The iterator -/

/-- Where `next` is resumed: at its start, after `co_yield(self.ty)`, or in its loop. -/
inductive IterStage
  | start
  | ty
  | loop
  deriving DecidableEq

/-- `ChainStreamBuilderProtocolTypeIter` -/
structure ChainStreamBuilderProtocolTypeIter where
  builders : List StreamBuilder
  ty : Option ProtocolType
  pos : ℕ
  state : IterStage

namespace ChainStreamBuilderProtocolTypeIter

def new (builders : List StreamBuilder) (lastBuilder : Option HopConfig) :
    ChainStreamBuilderProtocolTypeIter where
  builders := builders
  ty := lastBuilder.map HopConfig.getProtocolType
  pos := builders.length
  state := .start

/-- The loop of `next`, up to its `co_yield`. -/
def nextLoop (it : ChainStreamBuilderProtocolTypeIter) :
    Except Fault (Option (ProtocolType × ChainStreamBuilderProtocolTypeIter)) :=
  if it.pos ≠ 0 then do
    let b ← index it.builders (it.pos - 1)
    return some (b.protocolType, { it with pos := it.pos - 1, state := .loop })
  else return none

/-- `next` after `co_yield(self.ty)`. -/
def nextAfter (it : ChainStreamBuilderProtocolTypeIter) :
    Except Fault (Option (ProtocolType × ChainStreamBuilderProtocolTypeIter)) :=
  if it.pos = 0 then return none else it.nextLoop

def next (it : ChainStreamBuilderProtocolTypeIter) :
    Except Fault (Option (ProtocolType × ChainStreamBuilderProtocolTypeIter)) :=
  match it.state with
  | .start =>
    match it.ty with
    | some ty => return some (ty, { it with state := .ty })
    | none => it.nextAfter
  | .ty => it.nextAfter
  | .loop => it.nextLoop

/-- `next` gives these items one after the other, and then `None`. -/
inductive Yields : ChainStreamBuilderProtocolTypeIter → List ProtocolType → Prop
  | done {it : ChainStreamBuilderProtocolTypeIter} (h : it.next = .ok none) : Yields it []
  | item {it it' : ChainStreamBuilderProtocolTypeIter} {ty : ProtocolType}
      {tys : List ProtocolType} (h : it.next = .ok (some (ty, it'))) (rest : Yields it' tys) :
      Yields it (ty :: tys)

variable {it : ChainStreamBuilderProtocolTypeIter}

theorem nextLoop_zero (h : it.pos = 0) : it.nextLoop = .ok none :=
  if_neg fun h_ne => h_ne h

/-- The iterator gives the builder in front of its position and goes there. -/
theorem nextLoop_succ {front back : List StreamBuilder} {b : StreamBuilder}
    (h : it.builders = front ++ b :: back) (h_pos : it.pos = front.length + 1) :
    it.nextLoop = .ok (some (b.protocolType, { it with pos := front.length, state := .loop })) := by
  have h_get : it.builders[front.length]? = some b := by
    rw [h, List.getElem?_append_right (Nat.le_refl _), Nat.sub_self]
    rfl
  unfold nextLoop
  rw [h_pos, if_pos (Nat.succ_ne_zero _), Nat.add_sub_cancel, index_of_getElem? h_get]
  rfl

theorem nextAfter_eq (it : ChainStreamBuilderProtocolTypeIter) : it.nextAfter = it.nextLoop := by
  unfold nextAfter
  by_cases h : it.pos = 0
  · rw [if_pos h, nextLoop_zero h]
    rfl
  · rw [if_neg h]

/-- The items of the loop: the builders before `pos`, from right to left. -/
theorem yields_loop {front back : List StreamBuilder} (h : it.builders = front ++ back)
    (h_pos : it.pos = front.length) (h_next : it.next = it.nextLoop) :
    Yields it (front.map StreamBuilder.protocolType).reverse := by
  -- on the builders that are left, from the right
  induction front using List.reverseRecOn generalizing it back with
  | nil =>
    rw [nextLoop_zero h_pos] at h_next
    exact .done h_next
  | append_singleton front b ih =>
    rw [List.append_assoc] at h
    rw [List.length_append] at h_pos
    rw [nextLoop_succ h h_pos] at h_next
    rw [List.map_append, List.reverse_append]
    exact .item h_next (ih h rfl rfl)

/-- **The iterator** yields the last builder, if there is one, and the builders from right to
left. -/
theorem yields_new (b : ChainStreamBuilder) :
    Yields (new b.builders b.lastBuilder) b.protocolTypeIter := by
  have h_builders : b.builders = b.builders ++ [] := (List.append_nil _).symm
  unfold ChainStreamBuilder.protocolTypeIter
  -- with a last builder the first `next` yields its type, and nothing else is different
  cases b.lastBuilder with
  | none => exact yields_loop h_builders rfl (nextAfter_eq _)
  | some last => exact .item rfl (yields_loop h_builders rfl (nextAfter_eq _))

/-- There is nothing else that an iterator could yield. -/
theorem Yields.unique {tys tys' : List ProtocolType} (h : Yields it tys) (h' : Yields it tys') :
    tys = tys' := by
  induction h generalizing tys' with
  | done h_none =>
    cases h' with
    | done _ => rfl
    | item h_some _ =>
      rw [h_none] at h_some
      cases h_some
  | item h_some _ ih =>
    cases h' with
    | done h_none =>
      rw [h_none] at h_some
      cases h_some
    | item h_some' rest' =>
      rw [h_some] at h_some'
      cases h_some'
      rw [ih rest']

end ChainStreamBuilderProtocolTypeIter

/-! ### Chains that have just been put together -/

namespace ChainStreamBuilder

/-- What `new` and the pushes make. -/
inductive Pushed : ChainStreamBuilder → Prop
  | new : Pushed .new
  | push {b : ChainStreamBuilder} (builder : StreamBuilder) (h : Pushed b) :
      Pushed (b.push builder)
  | pushLastBuilder {b : ChainStreamBuilder} (last : HopConfig) (h : Pushed b) :
      Pushed (b.pushLastBuilder last)
  | pushRemoteAddr {b : ChainStreamBuilder} (addr : Address) (h : Pushed b) :
      Pushed (b.pushRemoteAddr addr)

/-- Nothing is marked yet. -/
theorem Pushed.unmarked {b : ChainStreamBuilder} (h : Pushed b) :
    b.buildUdpMarker = [] ∧ b.lastUdpAddr = none := by
  induction h with
  | new => exact ⟨rfl, rfl⟩
  | push _ _ ih | pushLastBuilder _ _ ih | pushRemoteAddr _ _ ih => exact ih

/-- Any layers can be pushed. -/
theorem pushed_layers (builders : List StreamBuilder) (remoteAddr : Option Address)
    (lastBuilder : Option HopConfig) :
    Pushed { ChainStreamBuilder.new with builders, remoteAddr, lastBuilder } := by
  -- the builders are pushed from left to right
  have h_builders : Pushed { ChainStreamBuilder.new with builders } := by
    induction builders using List.reverseRecOn with
    | nil => exact .new
    | append_singleton builders builder ih => exact ih.push builder
  cases remoteAddr with
  | none =>
    cases lastBuilder with
    | none => exact h_builders
    | some last => exact h_builders.pushLastBuilder last
  | some addr =>
    cases lastBuilder with
    | none => exact h_builders.pushRemoteAddr addr
    | some last => exact (h_builders.pushRemoteAddr addr).pushLastBuilder last

/-- The index that is looked up is in the chain. -/
theorem exists_buildInnerMarkers (b : ChainStreamBuilder) : ∃ b', b.buildInnerMarkers = .ok b' := by
  have h_len : b.protocolTypeIter.length ≤ b.builders.length + 1 := by
    unfold protocolTypeIter
    rw [List.length_append, List.length_reverse, List.length_map]
    cases b.lastBuilder with
    | none => exact (Nat.zero_add _).trans_le (Nat.le_succ _)
    | some last => exact Nat.le_of_eq (Nat.add_comm 1 _)
  unfold buildInnerMarkers
  dsimp only
  have h_iter : ∀ x y, ({ b with buildUdpMarker := x, isBlackHole := y } :
      ChainStreamBuilder).protocolTypeIter = b.protocolTypeIter := fun _ _ => rfl
  rw [h_iter]
  cases h_pos : b.protocolTypeIter.findIdx? ProtocolType.isUot with
  | none => exact ⟨_, rfl⟩
  | some idx =>
    obtain ⟨h_lt, _⟩ := List.findIdx?_eq_some_iff_getElem.mp h_pos
    -- `idx` is not looked up at 0, and else it is not more than the number of builders
    by_cases h_idx : idx = 0
    · dsimp only
      rw [if_pos h_idx]
      exact ⟨_, rfl⟩
    · have h_in : b.builders.length - idx < b.builders.length := by omega
      dsimp only
      rw [if_neg h_idx, index_of_getElem? (List.getElem?_eq_getElem h_in)]
      exact ⟨_, rfl⟩

/-! ### What is marked -/

def lastIsUot (b : ChainStreamBuilder) : Bool := b.lastBuilder.any (·.getProtocolType.isUot)

theorem lastIsUot_of_none {b : ChainStreamBuilder} (h : b.lastBuilder = none) :
    b.lastIsUot = false := by
  rw [lastIsUot, h]
  rfl

/-- The address for a last builder that is not UoT: the one that the rightmost UoT builder holds,
or else the remote address. -/
def udpDestination (b : ChainStreamBuilder) : Option Address :=
  match b.builders.reverse.find? (·.protocolType.isUot) with
  | some uot => uot.getAddr
  | none => b.remoteAddr

/-- The marks that `b'` should have, as `b` is now. -/
structure Marks (b b' : ChainStreamBuilder) : Prop where
  length_eq : b'.buildUdpMarker.length = b.layerTypes.length
  marker_iff : ∀ (i : ℕ) (bit : Bool), b'.buildUdpMarker[i]? = some bit →
    (bit = true ↔ ∃ j ty, i < j ∧ b.layerTypes[j]? = some ty ∧ ty.isUot = true)
  lastUdpAddr_eq : b.lastIsUot = false → b'.lastUdpAddr = b.udpDestination

/-- The address is looked for in the right place: there is a last builder, or no builder is UoT,
or the builder after the rightmost UoT one holds the same address. -/
def Locates (b : ChainStreamBuilder) : Prop :=
  b.lastBuilder ≠ none ∨ (∀ x ∈ b.builders, x.protocolType.isUot = false) ∨
    ∃ front uot behind back, b.builders = front ++ uot :: behind :: back ∧
      uot.protocolType.isUot = true ∧ (∀ x ∈ behind :: back, x.protocolType.isUot = false) ∧
      behind.getAddr = uot.getAddr

/-- A builder that is UoT holds an address. -/
theorem exists_getAddr_of_isUot {x : StreamBuilder} (h : x.protocolType.isUot = true) :
    ∃ addr, x.getAddr = some addr := by
  cases x with
  | vmess _ | trojan _ _ => exact ⟨_, rfl⟩
  | shadowsocks _ _ _ | tls _ _ _ _ | ws _ _ _ _ | grpc _ _ | h2 _ _ _ _ | simpleObfs _ | direct
  | blackhole => cases h

end ChainStreamBuilder

/-- The marker of a layer. -/
theorem getElem?_uotRight {types : List ProtocolType} {i : ℕ} {bit : Bool}
    (h : (uotRight types)[i]? = some bit) :
    bit = true ↔ ∃ j ty, i < j ∧ types[j]? = some ty ∧ ty.isUot = true := by
  induction types generalizing i with
  | nil => cases h
  | cons x types ih =>
    cases i with
    | zero =>
      -- the first marker looks at all other layers
      cases h
      rw [List.any_eq_true]
      constructor
      · rintro ⟨ty, h_ty, h_uot⟩
        obtain ⟨j, h_j⟩ := List.mem_iff_getElem?.mp h_ty
        exact ⟨j + 1, ty, Nat.succ_pos j, h_j, h_uot⟩
      · rintro ⟨j, ty, h_pos, h_ty, h_uot⟩
        obtain ⟨j, rfl⟩ := Nat.exists_eq_succ_of_ne_zero h_pos.ne'
        exact ⟨ty, List.mem_of_getElem? h_ty, h_uot⟩
    | succ i =>
      rw [ih h]
      constructor
      · rintro ⟨j, ty, h_lt, h_ty, h_uot⟩
        exact ⟨j + 1, ty, Nat.succ_lt_succ h_lt, h_ty, h_uot⟩
      · rintro ⟨j, ty, h_lt, h_ty, h_uot⟩
        obtain ⟨j, rfl⟩ := Nat.exists_eq_succ_of_ne_zero (Nat.ne_of_gt (Nat.zero_lt_of_lt h_lt))
        exact ⟨j, ty, Nat.lt_of_succ_lt_succ h_lt, h_ty, h_uot⟩

namespace ChainStreamBuilder

variable {b b' : ChainStreamBuilder}

/-- What is found where no builder is UoT. -/
theorem udpDestination_of_none (h : ∀ x ∈ b.builders, x.protocolType.isUot = false) :
    b.udpDestination = b.remoteAddr := by
  have h_find : b.builders.reverse.find? (·.protocolType.isUot) = none := by
    refine List.find?_eq_none.mpr fun x h_x => ?_
    rw [h x (List.mem_reverse.mp h_x)]
    exact Bool.false_ne_true
  unfold udpDestination
  rw [h_find]

theorem udpDestination_of_split {front back : List StreamBuilder} {uot : StreamBuilder}
    (h : b.builders = front ++ uot :: back) (h_uot : uot.protocolType.isUot = true)
    (h_back : ∀ x ∈ back, x.protocolType.isUot = false) : b.udpDestination = uot.getAddr := by
  have h_find : (front ++ uot :: back).reverse.find? (·.protocolType.isUot) = some uot :=
    find?_reverse_split h_uot h_back
  unfold udpDestination
  rw [h, h_find]

/-- The first UoT layer from the right, counted from the builders. -/
theorem findIdx?_protocolTypeIter (b : ChainStreamBuilder) :
    b.protocolTypeIter.findIdx? ProtocolType.isUot =
      if b.lastIsUot then some 0
      else (b.builders.reverse.findIdx? (·.protocolType.isUot)).map
        (· + b.lastBuilder.toList.length) := by
  have h_builders : (b.builders.map StreamBuilder.protocolType).reverse.findIdx?
      ProtocolType.isUot = b.builders.reverse.findIdx? (·.protocolType.isUot) := by
    rw [← List.map_reverse, List.findIdx?_map]
    rfl
  unfold protocolTypeIter lastIsUot
  rw [List.findIdx?_append, h_builders]
  -- a last builder that is not UoT is one more type to pass
  cases b.lastBuilder with
  | none => cases b.builders.reverse.findIdx? (·.protocolType.isUot) <;> rfl
  | some last =>
    cases h_last : last.getProtocolType.isUot with
    | true => simp [h_last]
    | false => simp [h_last]

/-- `position` counts the builders behind the last UoT builder, the last builder with them. -/
theorem findIdx?_of_split {front back : List StreamBuilder} {uot : StreamBuilder}
    (h : b.builders = front ++ uot :: back) (h_uot : uot.protocolType.isUot = true)
    (h_back : ∀ x ∈ back, x.protocolType.isUot = false) (h_last : b.lastIsUot = false) :
    b.protocolTypeIter.findIdx? ProtocolType.isUot =
      some (back.length + b.lastBuilder.toList.length) := by
  have h_find : (front ++ uot :: back).reverse.findIdx? (·.protocolType.isUot) =
      some back.length := findIdx?_reverse_split h_uot h_back
  rw [findIdx?_protocolTypeIter, h_last, h, h_find]
  rfl

namespace Marked

variable {front back : List StreamBuilder} {uot behind : StreamBuilder} {last : HopConfig}

/-- Without a UoT builder the datagrams go to the remote address. -/
theorem lastUdpAddr_of_none (h_m : Marked b b')
    (h : ∀ x ∈ b.builders, x.protocolType.isUot = false) (h_last : b.lastIsUot = false) :
    b'.lastUdpAddr = b.remoteAddr := by
  have h_find : b.builders.reverse.findIdx? (·.protocolType.isUot) = none :=
    List.findIdx?_eq_none_iff.mpr fun x h_x => h x (List.mem_reverse.mp h_x)
  have h_iter : b.protocolTypeIter.findIdx? ProtocolType.isUot = none := by
    rw [findIdx?_protocolTypeIter, h_last, h_find]
    rfl
  have h_addr := h_m.lastUdpAddr_eq
  rw [h_iter] at h_addr
  exact h_addr

/-- With a last builder, the index is right. -/
theorem lastUdpAddr_of_last (h_m : Marked b b') (h : b.builders = front ++ uot :: back)
    (h_uot : uot.protocolType.isUot = true) (h_back : ∀ x ∈ back, x.protocolType.isUot = false)
    (h_last : b.lastIsUot = false) (h_some : b.lastBuilder = some last) :
    b'.lastUdpAddr = uot.getAddr := by
  have h_iter := findIdx?_of_split h h_uot h_back h_last
  have h_addr := h_m.lastUdpAddr_eq
  rw [h_iter, h_some] at h_addr
  obtain ⟨x, h_x, h_addr⟩ := h_addr
  have h_pos : b.builders.length - (back.length + 1) = front.length := by
    rw [h, List.length_append, List.length_cons, Nat.add_sub_cancel]
  rw [h_pos, h, List.getElem?_append_right (Nat.le_refl _), Nat.sub_self] at h_x
  cases h_x
  exact h_addr

/-- Without one, the builder behind is found. -/
theorem lastUdpAddr_of_behind (h_m : Marked b b')
    (h : b.builders = front ++ uot :: behind :: back) (h_uot : uot.protocolType.isUot = true)
    (h_back : ∀ x ∈ behind :: back, x.protocolType.isUot = false) (h_none : b.lastBuilder = none) :
    b'.lastUdpAddr = behind.getAddr := by
  have h_iter := findIdx?_of_split h h_uot h_back (lastIsUot_of_none h_none)
  have h_addr := h_m.lastUdpAddr_eq
  rw [h_iter, h_none] at h_addr
  obtain ⟨x, h_x, h_addr⟩ := h_addr
  have h_pos : b.builders.length - (back.length + 1) = front.length + 1 := by
    rw [h, List.length_append, List.length_cons, List.length_cons]
    omega
  rw [h_pos, h, List.getElem?_append_right (Nat.le_add_right _ _), Nat.add_sub_cancel_left] at h_x
  cases h_x
  exact h_addr

/-- And if there is none behind, nothing is. -/
theorem lastUdpAddr_of_alone (h_m : Marked b b') (h : b.builders = front ++ [uot])
    (h_uot : uot.protocolType.isUot = true) (h_none : b.lastBuilder = none) :
    b'.lastUdpAddr = b.lastUdpAddr := by
  have h_iter := findIdx?_of_split h h_uot (List.forall_mem_nil _) (lastIsUot_of_none h_none)
  have h_addr := h_m.lastUdpAddr_eq
  rw [h_iter, h_none] at h_addr
  exact h_addr

/-- **The address is right exactly where it is looked for in the right place.** -/
theorem lastUdpAddr_iff (h_m : Marked b b') (h_unset : b.lastUdpAddr = none) :
    (b.lastIsUot = false → b'.lastUdpAddr = b.udpDestination) ↔ b.Locates := by
  constructor
  · intro h_addr
    cases h_last : b.lastBuilder with
    | some last =>
      refine Or.inl ?_
      rw [h_last]
      exact Option.some_ne_none last
    | none =>
      replace h_addr := h_addr (lastIsUot_of_none h_last)
      rcases rightmost_split (fun x : StreamBuilder => x.protocolType.isUot) b.builders with
        h_none | ⟨front, uot, back, h_eq, h_uot, h_back⟩
      · exact Or.inr (Or.inl h_none)
      · rw [udpDestination_of_split h_eq h_uot h_back] at h_addr
        cases back with
        | nil =>
          -- nothing is found, but `uot` holds an address
          obtain ⟨addr, h_some⟩ := exists_getAddr_of_isUot h_uot
          rw [h_m.lastUdpAddr_of_alone h_eq h_uot h_last, h_unset, h_some] at h_addr
          cases h_addr
        | cons behind back =>
          rw [h_m.lastUdpAddr_of_behind h_eq h_uot h_back h_last] at h_addr
          exact Or.inr (Or.inr ⟨front, uot, behind, back, h_eq, h_uot, h_back, h_addr⟩)
  · intro h_loc h_not
    rcases rightmost_split (fun x : StreamBuilder => x.protocolType.isUot) b.builders with
      h_none | ⟨front, uot, back, h_eq, h_uot, h_back⟩
    · rw [h_m.lastUdpAddr_of_none h_none h_not, udpDestination_of_none h_none]
    · cases h_last : b.lastBuilder with
      | some last =>
        rw [h_m.lastUdpAddr_of_last h_eq h_uot h_back h_not h_last,
          udpDestination_of_split h_eq h_uot h_back]
      | none =>
        rcases h_loc with h_some | h_none | ⟨front, uot, behind, back, h_eq, h_uot, h_back, h_same⟩
        · exact absurd h_last h_some
        · rw [h_m.lastUdpAddr_of_none h_none h_not, udpDestination_of_none h_none]
        · rw [h_m.lastUdpAddr_of_behind h_eq h_uot h_back h_last,
            udpDestination_of_split h_eq h_uot h_back, h_same]

end Marked

/-- Every layer gets its marker, whatever the chain. -/
theorem marks_of_lastUdpAddr (h_m : Marked b b')
    (h : b.lastIsUot = false → b'.lastUdpAddr = b.udpDestination) : Marks b b' where
  length_eq := by rw [h_m.marker_eq, length_uotRight]
  marker_iff i bit h_bit := by
    rw [h_m.marker_eq] at h_bit
    exact getElem?_uotRight h_bit
  lastUdpAddr_eq := h

/-- **Marking a chain that has just been put together** meets its description exactly if the
address is looked for in the right place. -/
theorem marks_iff (h : Pushed b) :
    (∃ b', b.buildInnerMarkers = .ok b' ∧ Marks b b') ↔ b.Locates := by
  obtain ⟨h_marker, h_unset⟩ := h.unmarked
  obtain ⟨b', h_b'⟩ := b.exists_buildInnerMarkers
  -- marking returns, and there is no other chain that it could return
  have h_m := marked_of_buildInnerMarkers h_marker h_b'
  constructor
  · rintro ⟨b'', h_b'', h_marks⟩
    rw [h_b'] at h_b''
    cases h_b''
    exact (h_m.lastUdpAddr_iff h_unset).mp h_marks.lastUdpAddr_eq
  · intro h_loc
    exact ⟨b', h_b', marks_of_lastUdpAddr h_m ((h_m.lastUdpAddr_iff h_unset).mpr h_loc)⟩

/-- Two UoT builders and a last one that is not UoT: the second of the two counts. -/
theorem marks_iff_twoUot :
    let b : ChainStreamBuilder :=
      { new with
        builders := [.trojan [1] (.domainNameAddress "a" 1), .direct,
          .trojan [2] (.domainNameAddress "b" 2), .simpleObfs (.domainNameAddress "c" 3)]
        remoteAddr := some (.domainNameAddress "r" 4)
        lastBuilder := some (.direct ⟨"out"⟩) }
    b.udpDestination = some (.domainNameAddress "b" 2) ∧
      ((∃ b', b.buildInnerMarkers = .ok b' ∧ Marks b b') ↔ b.Locates) :=
  ⟨rfl, marks_iff (pushed_layers _ _ _)⟩

/-- A chain of one UoT builder, with no last one: it is taken for the last builder. -/
theorem marks_alone :
    let b : ChainStreamBuilder := new.push (.trojan [1] (.domainNameAddress "a" 1))
    Pushed b ∧ b.lastBuilder = none ∧ b.udpDestination = some (.domainNameAddress "a" 1) ∧
      ¬∃ b', b.buildInnerMarkers = .ok b' ∧ Marks b b' := by
  refine ⟨Pushed.new.push _, rfl, rfl, ?_⟩
  rintro ⟨b', h_b', h_marks⟩
  cases h_b'
  have h_addr := h_marks.lastUdpAddr_eq rfl
  cases h_addr

end ChainStreamBuilder

/-- The chains of an accepted configuration are marked right: without an addressed hop there is
no UoT builder. -/
theorem Assembled.locates {W : World} {hops : List HopConfig} {b : ChainStreamBuilder}
    (h : Assembled W hops b) : b.Locates := by
  cases h with
  | plain no_addr makes last_eq =>
    refine Or.inr (Or.inl fun x h_x => ?_)
    -- no hop has an address, so no builder has one
    have h_none := makes.getAddr_eq_none no_addr x h_x
    by_contra h_uot
    obtain ⟨addr, h_some⟩ :=
      ChainStreamBuilder.exists_getAddr_of_isUot (Bool.eq_true_of_not_eq_false h_uot)
    rw [h_none] at h_some
    cases h_some
  | addressed front last tail fs ts own hops_eq last_addr no_addr makes_front makes_tail
      builders_eq last_eq =>
    refine Or.inl ?_
    rw [last_eq]
    exact Option.some_ne_none last

end V2ray
