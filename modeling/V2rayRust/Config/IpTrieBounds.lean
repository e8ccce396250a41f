import V2rayRust.Config.IpMatch

/-!
# The indices of the tries

No index of `put` is out of bounds, whatever has been put before. A trie's vectors have one length,
and every pointer in them is null or below it (`InBounds`). Node numbers are cut to `$ip_type` when
they are stored and to `usize` when they are used, and nothing checks that they fit; but a number
that is cut is no larger than it was, so it is the number of some node all the same
(`asUsize_ofNat_le`). So this holds also where the trie does not hold the rules any more that were
put into it.

`descend` and `extend` keep the node that they are at below the size. What is left that can stop a
put is the range of its shift: it returns exactly if it is `Safe` (`putCall_returns`,
`putCall_overflow`).
-/

namespace V2ray

namespace PatriciaTrie

variable {w : ℕ} {t : PatriciaTrie w}

/-- The vectors have one length, and no pointer leads out of them. -/
structure InBounds (t : PatriciaTrie w) : Prop where
  pos : 0 < t.size
  left_length : t.left.length = t.size
  right_length : t.right.length = t.size
  value_length : t.value.length = t.size
  left_lt : ∀ c ∈ t.left, c ≠ nullptr w → asUsize c < t.size
  right_lt : ∀ c ∈ t.right, c ≠ nullptr w → asUsize c < t.size

theorem inBounds_new : (new : PatriciaTrie w).InBounds :=
  have h_null : ∀ c ∈ [nullptr w], c ≠ nullptr w → asUsize c < 1 :=
    fun _ h_c h_ne => absurd (List.mem_singleton.mp h_c) h_ne
  ⟨Nat.one_pos, rfl, rfl, rfl, h_null, h_null⟩

/-- A number that is cut to the width of a pointer, and to a `usize`. -/
theorem asUsize_ofNat_le (n : ℕ) : asUsize (BitVec.ofNat w n) ≤ n := by
  unfold asUsize
  rw [BitVec.toNat_ofNat]
  exact (Nat.mod_le _ _).trans (Nat.mod_le _ _)

/-- The pointer out of a node is there, and leads to a node if it is not null. -/
theorem InBounds.next (ht : t.InBounds) (key bit : BitVec w) {node : BitVec w}
    (h_node : asUsize node < t.size) :
    ∃ c, t.next key bit node = .ok c ∧ (c ≠ nullptr w → asUsize c < t.size) := by
  unfold PatriciaTrie.next
  split
  · obtain ⟨c, h_c, h_index⟩ := exists_index_of_lt (ht.right_length.symm ▸ h_node)
    exact ⟨c, h_index, ht.right_lt c h_c⟩
  · obtain ⟨c, h_c, h_index⟩ := exists_index_of_lt (ht.left_length.symm ▸ h_node)
    exact ⟨c, h_index, ht.left_lt c h_c⟩

/-- The first loop of `put` stays at nodes of the trie. -/
theorem InBounds.descend (ht : t.InBounds) (key mask : BitVec w) (n : ℕ) (bit : BitVec w)
    {node : BitVec w} (h_node : asUsize node < t.size) (nxt : BitVec w) :
    ∃ bit' node' nxt', t.descend key mask n bit node nxt = .ok (bit', node', nxt') ∧
      asUsize node' < t.size := by
  induction n generalizing bit node nxt with
  | zero => exact ⟨bit, node, nxt, rfl, h_node⟩
  | succ n ih =>
    unfold PatriciaTrie.descend
    split
    · obtain ⟨c, h_next, h_c⟩ := ht.next key bit h_node
      -- it stops at a null pointer, or goes on at the node
      rw [h_next, ok_bind]
      split
      · exact ⟨bit, node, c, rfl, h_node⟩
      · next h_null => exact ih (bit >>> 1) (h_c h_null) c
    · -- the bits of the mask are over
      exact ⟨bit, node, nxt, rfl, h_node⟩

/-- The pointers after a node has been added: those that were there, one that is null, and one that
leads to the new node. -/
theorem lt_of_mem_set_concat {xs : List (BitVec w)} {n i : ℕ}
    (h : ∀ c ∈ xs, c ≠ nullptr w → asUsize c < n) {c : BitVec w}
    (h_mem : c ∈ (xs ++ [nullptr w]).set i (BitVec.ofNat w n)) (h_null : c ≠ nullptr w) :
    asUsize c < n + 1 := by
  rcases List.mem_or_eq_of_mem_set h_mem with h_mem | rfl
  · rcases List.mem_append.mp h_mem with h_mem | h_mem
    · exact Nat.lt_succ_of_lt (h c h_mem h_null)
    · exact absurd (List.mem_singleton.mp h_mem) h_null
  · exact Nat.lt_succ_of_le (asUsize_ofNat_le n)

theorem lt_of_mem_concat {xs : List (BitVec w)} {n : ℕ}
    (h : ∀ c ∈ xs, c ≠ nullptr w → asUsize c < n) {c : BitVec w} (h_mem : c ∈ xs ++ [nullptr w])
    (h_null : c ≠ nullptr w) : asUsize c < n + 1 := by
  rcases List.mem_append.mp h_mem with h_mem | h_mem
  · exact Nat.lt_succ_of_lt (h c h_mem h_null)
  · exact absurd (List.mem_singleton.mp h_mem) h_null

/-- A round of the second loop of `put` adds one node. -/
theorem InBounds.pushChild (ht : t.InBounds) (key bit : BitVec w) {node : BitVec w}
    (h_node : asUsize node < t.size) :
    ∃ t', t.pushChild key bit node = .ok t' ∧ t'.InBounds ∧ t'.size = t.size + 1 := by
  have h_left : (t.left ++ [nullptr w]).length = t.size + 1 :=
    List.length_append.trans (congrArg (· + 1) ht.left_length)
  have h_right : (t.right ++ [nullptr w]).length = t.size + 1 :=
    List.length_append.trans (congrArg (· + 1) ht.right_length)
  have h_value : (t.value ++ [nullptr 32]).length = t.size + 1 :=
    List.length_append.trans (congrArg (· + 1) ht.value_length)
  have h_lt : asUsize node < t.size + 1 := Nat.lt_succ_of_lt h_node
  unfold PatriciaTrie.pushChild
  dsimp only
  split
  · -- the new node is the right child
    rw [assign_of_lt (h_right.symm ▸ h_lt), ok_bind]
    exact ⟨_, rfl, ⟨Nat.succ_pos _, h_left, List.length_set.trans h_right, h_value,
      fun c => lt_of_mem_concat ht.left_lt, fun c => lt_of_mem_set_concat ht.right_lt⟩, rfl⟩
  · -- the new node is the left child
    rw [assign_of_lt (h_left.symm ▸ h_lt), ok_bind]
    exact ⟨_, rfl, ⟨Nat.succ_pos _, List.length_set.trans h_left, h_right, h_value,
      fun c => lt_of_mem_set_concat ht.left_lt, fun c => lt_of_mem_concat ht.right_lt⟩, rfl⟩

/-- The second loop of `put` goes on at the node that it has just added. -/
theorem InBounds.extend (ht : t.InBounds) (key mask : BitVec w) (n : ℕ) (bit : BitVec w)
    {node : BitVec w} (h_node : asUsize node < t.size) :
    ∃ t' node', PatriciaTrie.extend key mask n t bit node = .ok (t', node') ∧ t'.InBounds ∧
      asUsize node' < t'.size := by
  induction n generalizing t bit node with
  | zero => exact ⟨t, node, rfl, ht, h_node⟩
  | succ n ih =>
    unfold PatriciaTrie.extend
    split
    · obtain ⟨t', h_push, h_t', h_size⟩ := ht.pushChild key bit h_node
      rw [h_push, ok_bind]
      -- the number of the new node is the old size
      refine ih h_t' (bit >>> 1) ?_
      rw [h_size]
      exact Nat.lt_succ_of_le (asUsize_ofNat_le t.size)
    · exact ⟨t, node, rfl, ht, h_node⟩

theorem InBounds.assignValue (ht : t.InBounds) {node : BitVec w} (h_node : asUsize node < t.size)
    (v : BitVec 32) :
    ∃ vs, assign t.value (asUsize node) v = .ok vs ∧ ({ t with value := vs }).InBounds :=
  ⟨_, assign_of_lt (ht.value_length.symm ▸ h_node), ht.pos, ht.left_length, ht.right_length,
    List.length_set.trans ht.value_length, ht.left_lt, ht.right_lt⟩

/-- **A put** with a shift that is in range, or is not checked, returns. -/
theorem InBounds.put (ht : t.InBounds) {p : Profile} {pre : UInt8}
    (h_pre : p = .debug → 1 ≤ pre.toNat ∧ pre.toNat ≤ w) (key : BitVec w) (v : BitVec 32) :
    ∃ t', t.put p key pre v = .ok t' ∧ t'.InBounds := by
  obtain ⟨d, s, h_sub, h_amount⟩ := shift_returns 64 h_pre
  -- the walk begins at the root
  have h_root : asUsize (0 : BitVec w) < t.size := Nat.lt_of_le_of_lt (asUsize_ofNat_le 0) ht.pos
  obtain ⟨bit, node, nxt, h_descend, h_node⟩ :=
    ht.descend key (((1#w <<< s) - 1#w) ^^^ nullptr w) w (1#w <<< (w - 1)) h_root 0
  unfold PatriciaTrie.put
  rw [h_sub, ok_bind, h_amount, ok_bind]
  dsimp only
  rw [h_descend, ok_bind]
  dsimp only
  split
  · -- the node is there already
    obtain ⟨vs, h_assign, h_t'⟩ := ht.assignValue h_node v
    rw [h_assign]
    exact ⟨_, rfl, h_t'⟩
  · -- nodes are added up to the one for the last bit
    obtain ⟨t', node', h_extend, h_t', h_node'⟩ :=
      ht.extend key (((1#w <<< s) - 1#w) ^^^ nullptr w) w bit h_node
    obtain ⟨vs, h_assign, h_t''⟩ := h_t'.assignValue h_node' v
    rw [h_extend, ok_bind]
    dsimp only
    rw [h_assign]
    exact ⟨_, rfl, h_t''⟩

end PatriciaTrie

namespace GeoIPMatcher

variable {p : Profile} {m : GeoIPMatcher} {c : PutCall}

/-- No index of either trie is out of bounds. -/
structure InBounds (m : GeoIPMatcher) : Prop where
  trie4 : m.trie4.InBounds
  trie6 : m.trie6.InBounds

theorem inBounds_new : GeoIPMatcher.new.InBounds :=
  ⟨PatriciaTrie.inBounds_new, PatriciaTrie.inBounds_new⟩

/-- **A safe put returns**, and has left no wrong index. -/
theorem InBounds.putCall_returns (hm : m.InBounds) (h : c.Safe p) :
    ∃ m', m.putCall p c = .ok m' ∧ m'.InBounds := by
  cases c with
  | v4 ip pre tag =>
    obtain ⟨ip', h_norm⟩ := normalizeTo_returns ip h
    obtain ⟨t', h_put, h_t'⟩ := hm.trie4.put h ip' (BitVec.ofNat 32 (m.getOutboundPos tag).1)
    -- the other trie is not touched
    have h_other : (m.getOutboundPos tag).2.trie6.InBounds := by
      rw [trie6_getOutboundPos]
      exact hm.trie6
    refine ⟨{ (m.getOutboundPos tag).2 with trie4 := t' }, ?_, h_t', h_other⟩
    unfold putCall putV4 normalize
    dsimp only
    rw [trie4_getOutboundPos, h_norm, ok_bind, h_put, ok_bind]
    rfl
  | v6 ip pre tag =>
    obtain ⟨ip', h_norm⟩ := normalizeTo_returns ip h
    obtain ⟨t', h_put, h_t'⟩ := hm.trie6.put h ip' (BitVec.ofNat 32 (m.getOutboundPos tag).1)
    have h_other : (m.getOutboundPos tag).2.trie4.InBounds := by
      rw [trie4_getOutboundPos]
      exact hm.trie4
    refine ⟨{ (m.getOutboundPos tag).2 with trie6 := t' }, ?_, h_other, h_t'⟩
    unfold putCall putV6 normalize6
    dsimp only
    rw [trie6_getOutboundPos, h_norm, ok_bind, h_put, ok_bind]
    rfl

/-- A put that is not safe stops when it makes the network address. -/
theorem putCall_overflow (m : GeoIPMatcher) (h : ¬ c.Safe p) :
    p = .debug ∧ m.putCall p c = .error .overflow := by
  cases c with
  -- the shift for the network address of IPv4
  | v4 ip pre tag =>
    obtain ⟨rfl, h_pre⟩ := Classical.not_imp.mp h
    refine ⟨rfl, ?_⟩
    unfold putCall putV4 normalize
    dsimp only
    rw [normalizeTo_debug h_pre, error_bind]
  -- and of IPv6
  | v6 ip pre tag =>
    obtain ⟨rfl, h_pre⟩ := Classical.not_imp.mp h
    refine ⟨rfl, ?_⟩
    unfold putCall putV6 normalize6
    dsimp only
    rw [normalizeTo_debug h_pre, error_bind]

/-- Every put that returns has left no wrong index. -/
theorem InBounds.putCall (hm : m.InBounds) {m' : GeoIPMatcher} (h : m.putCall p c = .ok m') :
    m'.InBounds := by
  by_cases h_safe : c.Safe p
  · obtain ⟨m'', h_put, h_m''⟩ := hm.putCall_returns h_safe
    rw [h_put] at h
    cases h
    exact h_m''
  · rw [(putCall_overflow m h_safe).2] at h
    cases h

/-- **No index is out of bounds** in a matcher that puts have made. -/
theorem inBounds_of_puts {calls : List PutCall} (h : GeoIPMatcher.new.puts p calls = .ok m) :
    m.InBounds :=
  foldlM_induction (P := fun _ m => m.InBounds) inBounds_new
    (fun _ _ _ _ h_m h_put => h_m.putCall h_put) h

end GeoIPMatcher

end V2ray
