import Mathlib.Data.List.AList
import V2rayRust.Lib.Grouped

/-!
# The map that keeps insertion order

`config/utils.rs`: a vector of entries, and the position of each key in it. That the two
agree is a field of the type, so that no position is ever out of range and no key stands
twice (`nodup_keys`).

`Collects` is what the map is for: it holds a log of keyed entries, grouped by key.
-/

namespace V2ray

structure KeepInsertOrderMap (V : Type) where
  data : List (String × V)
  order : AList fun _ : String => ℕ
  indexed : ∀ k i, order.lookup k = some i ↔ data[i]?.map Prod.fst = some k

namespace KeepInsertOrderMap

variable {V : Type}

def new : KeepInsertOrderMap V where
  data := []
  order := ∅
  indexed k i := by simp

/-- A new key has the index of the entry that is pushed for it. -/
theorem indexed_insert (m : KeepInsertOrderMap V) {key : String} (v : V)
    (h : m.order.lookup key = none) (k : String) (i : ℕ) :
    (m.order.insert key m.data.length).lookup k = some i ↔
      (m.data ++ [(key, v)])[i]?.map Prod.fst = some k := by
  by_cases h_k : k = key
  · subst h_k
    rw [AList.lookup_insert]
    constructor
    · intro h_i
      cases h_i
      rw [List.getElem?_concat_length]
      rfl
    · intro h_i
      rcases Nat.lt_trichotomy i m.data.length with h_lt | rfl | h_gt
      · -- below the end the key would be in the map already
        rw [List.getElem?_append_left h_lt, ← m.indexed, h] at h_i
        cases h_i
      · rfl
      · rw [List.getElem?_eq_none (by rw [List.length_append]; exact h_gt)] at h_i
        cases h_i
  · rw [AList.lookup_insert_ne h_k, m.indexed]
    -- another key: below the end nothing changes, and the end has the new key
    rcases Nat.lt_trichotomy i m.data.length with h_lt | rfl | h_gt
    · rw [List.getElem?_append_left h_lt]
    · rw [List.getElem?_concat_length, List.getElem?_eq_none (Nat.le_refl _)]
      exact ⟨fun h_none => (by cases h_none), fun h_eq => absurd (Option.some.inj h_eq).symm h_k⟩
    · have h_out : (m.data ++ [(key, v)]).length ≤ i := by
        rw [List.length_append]
        exact h_gt
      rw [List.getElem?_eq_none (Nat.le_of_lt h_gt), List.getElem?_eq_none h_out]

def insert (m : KeepInsertOrderMap V) (key : String) (v : V) : KeepInsertOrderMap V :=
  match h : m.order.lookup key with
  | none =>
    ⟨m.data ++ [(key, v)], m.order.insert key m.data.length, m.indexed_insert v h⟩
  | some _ => m

/-- `if let Some(v) = get_mut(k) { *v = f(v) }`, and whether the key was there. -/
def getMut (m : KeepInsertOrderMap V) (k : String) (f : V → V) : Option (KeepInsertOrderMap V) :=
  match m.order.lookup k with
  | some idx =>
    some
      { data := m.data.modify idx fun e => (e.1, f e.2)
        order := m.order
        indexed := fun k i => by
          rw [m.indexed, List.getElem?_modify]
          cases m.data[i]? with
          | none => rfl
          | some e =>
            show some e.1 = some k ↔ some (if idx = i then (e.1, f e.2) else e).1 = some k
            split <;> rfl }
  | none => none

def containsKey (m : KeepInsertOrderMap V) (k : String) : Bool := (m.order.lookup k).isSome

/-! ### What the map holds -/

def keys (m : KeepInsertOrderMap V) : List String := m.data.map Prod.fst

theorem lookup_eq_some_iff (m : KeepInsertOrderMap V) {k : String} {i : ℕ} :
    m.order.lookup k = some i ↔ m.keys[i]? = some k := by
  rw [m.indexed, keys, List.getElem?_map]

theorem lookup_eq_none_iff (m : KeepInsertOrderMap V) {k : String} :
    m.order.lookup k = none ↔ k ∉ m.keys := by
  constructor
  · intro h h_mem
    obtain ⟨i, h_i⟩ := List.getElem?_of_mem h_mem
    rw [m.lookup_eq_some_iff.mpr h_i] at h
    cases h
  · intro h
    cases h_look : m.order.lookup k with
    | none => rfl
    | some i => exact absurd (List.mem_of_getElem? (m.lookup_eq_some_iff.mp h_look)) h

theorem containsKey_iff (m : KeepInsertOrderMap V) {k : String} :
    m.containsKey k = true ↔ k ∈ m.keys := by
  unfold containsKey
  rw [← not_iff_not, ← m.lookup_eq_none_iff]
  simp

/-- No key stands twice. -/
theorem nodup_keys (m : KeepInsertOrderMap V) : m.keys.Nodup := by
  rw [List.nodup_iff_injective_get]
  intro i j h
  have h_i : m.order.lookup (m.keys.get i) = some i.val :=
    m.lookup_eq_some_iff.mpr (List.getElem?_eq_getElem i.isLt)
  have h_j : m.order.lookup (m.keys.get j) = some j.val :=
    m.lookup_eq_some_iff.mpr (List.getElem?_eq_getElem j.isLt)
  rw [h, h_j] at h_i
  exact Fin.ext (Option.some.inj h_i).symm

theorem insert_of_notMem (m : KeepInsertOrderMap V) {key : String} (h : key ∉ m.keys) (v : V) :
    (m.insert key v).data = m.data ++ [(key, v)] := by
  unfold insert
  split
  · rfl
  · next h_some =>
    rw [m.lookup_eq_none_iff.mpr h] at h_some
    cases h_some

theorem getMut_of_notMem (m : KeepInsertOrderMap V) {k : String} (h : k ∉ m.keys) (f : V → V) :
    m.getMut k f = none := by
  unfold getMut
  rw [m.lookup_eq_none_iff.mpr h]

theorem getMut_of_getElem? (m : KeepInsertOrderMap V) {k : String} {i : ℕ}
    (h : m.keys[i]? = some k) (f : V → V) :
    ∃ m', m.getMut k f = some m' ∧ m'.data = m.data.modify i fun e => (e.1, f e.2) := by
  unfold getMut
  rw [m.lookup_eq_some_iff.mpr h]
  exact ⟨_, rfl, rfl⟩

/-! ### The value of a key -/

def value (m : KeepInsertOrderMap V) (k : String) : Option V := m.data.lookup k

theorem value_of_notMem (m : KeepInsertOrderMap V) {k : String} (h : k ∉ m.keys) :
    m.value k = none := by
  rw [value, List.lookup_eq_none_iff]
  intro e h_e
  have h_ne : k ≠ e.1 := fun h_k => h (h_k ▸ List.mem_map_of_mem h_e)
  exact bne_iff_ne.mpr h_ne

theorem exists_value (m : KeepInsertOrderMap V) {k : String} (h : k ∈ m.keys) :
    ∃ v, m.value k = some v := by
  obtain ⟨e, h_e, rfl⟩ := List.mem_map.mp h
  exact Option.isSome_iff_exists.mp (List.lookup_isSome_iff.mpr ⟨e, h_e, beq_self_eq_true _⟩)

/-- A new key is found with its value, and no other key is touched. -/
theorem value_insert (m : KeepInsertOrderMap V) {key : String} (h : key ∉ m.keys) (v : V)
    (k : String) : (m.insert key v).value k = if k = key then some v else m.value k := by
  have h_data : (m.insert key v).value k = (m.value k).or ([(key, v)].lookup k) := by
    rw [value, m.insert_of_notMem h, List.lookup_append]
    rfl
  rw [h_data]
  by_cases h_k : k = key
  · rw [if_pos h_k, h_k, m.value_of_notMem h, List.lookup_cons_self]
    rfl
  · rw [if_neg h_k, List.lookup_cons, beq_eq_false_iff_ne.mpr h_k]
    exact Option.or_none

/-- Changing an entry changes what is under its key. -/
theorem lookup_modify {data : List (String × V)} (h_nodup : (data.map Prod.fst).Nodup) {i : ℕ}
    {k : String} (h : (data.map Prod.fst)[i]? = some k) (f : V → V) (k' : String) :
    (data.modify i fun e => (e.1, f e.2)).lookup k' =
      if k' = k then (data.lookup k').map f else data.lookup k' := by
  induction data generalizing i with
  | nil => cases h
  | cons e data ih =>
    obtain ⟨h_e, h_nodup⟩ := List.nodup_cons.mp h_nodup
    cases i with
    | zero =>
      obtain rfl : e.1 = k := Option.some.inj h
      rw [List.modify_zero_cons, List.lookup_cons, List.lookup_cons]
      by_cases h_k : k' = e.1
      · simp [h_k]
      · simp [h_k, beq_false_of_ne h_k]
    | succ i =>
      have h_ne : e.1 ≠ k := fun h_eq => h_e (h_eq ▸ List.mem_of_getElem? h)
      rw [List.modify_succ_cons, List.lookup_cons, List.lookup_cons, ih h_nodup h]
      by_cases h_k : k' = e.1
      · simp [h_k, h_ne]
      · simp [beq_false_of_ne h_k]

/-- Only the value of the key is changed. -/
theorem value_getMut (m : KeepInsertOrderMap V) {k : String} (h : k ∈ m.keys) (f : V → V) :
    ∃ m', m.getMut k f = some m' ∧ m'.keys = m.keys ∧
      ∀ k', m'.value k' = if k' = k then (m.value k').map f else m.value k' := by
  obtain ⟨i, h_i⟩ := List.getElem?_of_mem h
  obtain ⟨m', h_get, h_data⟩ := m.getMut_of_getElem? h_i f
  refine ⟨m', h_get, ?_, fun k' => ?_⟩
  · unfold keys
    apply List.ext_getElem?
    intro j
    rw [h_data, List.getElem?_map, List.getElem?_map, List.getElem?_modify]
    cases m.data[j]? with
    | none => rfl
    | some e =>
      show some (if i = j then (e.1, f e.2) else e).1 = some e.1
      split <;> rfl
  · unfold value
    rw [h_data]
    exact lookup_modify m.nodup_keys h_i f k'

/-! ### A log in a map -/

variable {β : Type}

/-- The map holds the log `es`: under each key `val` of the entries of that key. -/
def Collects (val : List β → V) (es : List (String × β)) (m : KeepInsertOrderMap V) : Prop :=
  m.data = (grouped es).map fun g => (g.1, val g.2)

variable {val : List β → V} {es : List (String × β)} {m : KeepInsertOrderMap V}

theorem collects_new (val : List β → V) : Collects val [] new := rfl

theorem Collects.keys_eq (h : Collects val es m) : m.keys = keysOf es := by
  unfold keys
  rw [h, List.map_map]
  exact map_fst_grouped es

/-- The first entry of a key. -/
theorem Collects.insert (h : Collects val es m) {k : String} (hk : k ∉ m.keys) (b : β) :
    Collects val (es ++ [(k, b)]) (m.insert k (val [b])) := by
  unfold Collects
  rw [m.insert_of_notMem hk, grouped_concat_of_notMem (h.keys_eq ▸ hk), List.map_append, h]
  rfl

/-- A further entry of a key, when `f` is what the entry does to the value. -/
theorem Collects.getMut (h : Collects val es m) {k : String} (hk : k ∈ m.keys) {b : β}
    {f : V → V} (hf : ∀ bs, bs ≠ [] → f (val bs) = val (bs ++ [b])) :
    ∃ m', m.getMut k f = some m' ∧ Collects val (es ++ [(k, b)]) m' := by
  obtain ⟨i, h_i⟩ := List.getElem?_of_mem hk
  obtain ⟨m', h_get, h_data⟩ := m.getMut_of_getElem? h_i f
  refine ⟨m', h_get, ?_⟩
  rw [h.keys_eq] at h_i
  unfold Collects
  rw [h_data, h, grouped_concat_of_getElem? h_i]
  apply List.ext_getElem?
  intro j
  simp only [List.getElem?_modify, List.getElem?_map, getElem?_grouped]
  cases h_j : (keysOf es)[j]? with
  | none => rfl
  | some k' =>
    have h_mem := List.mem_of_getElem? h_j
    by_cases h_ij : i = j
    · simp [h_ij, hf _ (entriesAt_ne_nil h_mem)]
    · simp [h_ij]

/-- A further entry that adds nothing to the value. -/
theorem Collects.absorb (h : Collects val es m) {k : String} (hk : k ∈ m.keys) {b : β}
    (hb : ∀ bs, bs ≠ [] → val bs = val (bs ++ [b])) : Collects val (es ++ [(k, b)]) m := by
  obtain ⟨i, h_i⟩ := List.getElem?_of_mem hk
  obtain ⟨m', h_get, h_data⟩ := m.getMut_of_getElem? h_i id
  obtain ⟨m'', h_get', h_collects⟩ := h.getMut hk (f := id) hb
  rw [h_get] at h_get'
  cases h_get'
  have h_same : m'.data = m.data := h_data.trans (List.modify_id i m.data)
  unfold Collects at h_collects ⊢
  rw [← h_same]
  exact h_collects

end KeepInsertOrderMap

end V2ray
