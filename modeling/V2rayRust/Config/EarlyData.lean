import Mathlib.Data.List.Basic
import V2rayRust.Config.Model
import V2rayRust.Proxy.AddressText
import V2rayRust.Proxy.Chain

/-!
# Early data in the query of a WebSocket URI

`EarlyDataUri::new` of `config/deserialize.rs` looks for a segment `ed=..` of the query, and takes
it out. It has no position of the segment: it goes back from the end by the lengths of the key and
of the value, which have no `=` in them, and by one. That is the start of a segment with one `=`
(`rewrites_iff`).
-/

namespace V2ray

/-- `http::Uri`, as far as it is used: `parse`, `path`, `query` and its builder, which is given a
scheme, an authority, a path and a query. -/
structure UriLib where
  parse : String → Except String Uri
  path : Uri → String
  query : Uri → Option String
  build : Option String → Option String → String → Except String Uri

/-- The query of a URI is ASCII, and with some of its characters left out it is that of another
URI. -/
structure UriLib.Lawful (L : UriLib) : Prop where
  query_ascii : ∀ {text query : String} {uri : Uri}, L.parse text = .ok uri →
    L.query uri = some query → ∀ c ∈ query.toList, c.val ≤ 0x7f
  build_query : ∀ {text query : String} {uri : Uri}, L.parse text = .ok uri →
    L.query uri = some query → ∀ {kept : List Char}, kept.Sublist query.toList →
    ∃ uri', L.build uri.scheme uri.authority (L.path uri ++ "?" ++ String.ofList kept) = .ok uri' ∧
      L.query uri' = some (String.ofList kept)

/-- A digit, in the loop of `usize::from_str`. -/
def usizeDigit (value : ℕ) (c : Char) : Except String ℕ :=
  match Parser.toDigit 10 c with
  | none => .error "invalid digit found in string"
  | some d =>
    if value * 10 + d < 2 ^ 64 then .ok (value * 10 + d)
    else .error "number too large to fit in target type"

/-- `s.parse::<usize>()` -/
def usizeFromStr : List Char → Except String ℕ
  | [] => .error "cannot parse integer from empty string"
  | ['+'] => .error "invalid digit found in string"
  | '+' :: digits => digits.foldlM usizeDigit 0
  | digits => digits.foldlM usizeDigit 0

/-- `len()` of a string with these characters. -/
def byteLen (cs : List Char) : ℕ := (cs.map Char.utf8Size).sum

namespace EarlyDataUri

/-- The key that is looked for. -/
def ed : List Char := ['e', 'd']

/-- The variables after the loop over the characters of the query. -/
structure Scanned where
  tmpKey : List Char
  tmpValue : List Char
  foundEd : Bool
  startIdx : ℕ
  endIdx : ℕ

/-- `end_idx - tmp_value.len() - tmp_key.len() - 1` -/
def startOf (p : Profile) (endIdx : ℕ) (tmpKey tmpValue : List Char) : Except Fault ℕ := do
  let idx ← p.sub 64 endIdx (byteLen tmpValue)
  let idx ← p.sub 64 idx (byteLen tmpKey)
  p.sub 64 idx 1

/-- The loop, from the character at `idx` on. -/
def scan (p : Profile) (len : ℕ) :
    List Char → ℕ → List Char → List Char → Bool → Except Fault Scanned
  | [], _, tmpKey, tmpValue, _ => .ok ⟨tmpKey, tmpValue, false, 0, len⟩
  | c :: cs, idx, tmpKey, tmpValue, readKey =>
    if c = '=' then scan p len cs (idx + 1) tmpKey tmpValue false
    else if c = '&' then
      if tmpKey = ed then do
        let startIdx ← startOf p idx tmpKey tmpValue
        return ⟨tmpKey, tmpValue, true, startIdx, idx⟩
      else scan p len cs (idx + 1) [] [] true
    else if readKey then scan p len cs (idx + 1) (tmpKey ++ [c]) tmpValue readKey
    else scan p len cs (idx + 1) tmpKey (tmpValue ++ [c]) readKey

/-- The loop, and what is done about the last segment. -/
def locate (p : Profile) (query : List Char) : Except Fault Scanned := do
  let x ← scan p (byteLen query) query 0 [] [] true
  if x.tmpKey = ed ∧ x.foundEd = false then
    let startIdx ← startOf p x.endIdx x.tmpKey x.tmpValue
    return { x with foundEd := true, startIdx }
  else return x

/-- The characters, from the one at `idx` on, that are kept. -/
def kept (startIdx endIdx : ℕ) : ℕ → List Char → List Char
  | _, [] => []
  | idx, c :: cs =>
    if startIdx ≤ idx ∧ idx < endIdx then kept startIdx endIdx (idx + 1) cs
    else c :: kept startIdx endIdx (idx + 1) cs

/-- `EarlyDataUri::new` -/
def new (L : UriLib) (p : Profile) (text : String) : Except Stop EarlyDataUri := do
  let uri ← (L.parse text).mapError newError
  match L.query uri with
  | none => return ⟨uri, "", 0⟩
  | some query =>
    let x ← (locate p query.toList).mapError Stop.fault
    if x.foundEd then
      let maxEarlyData ← (usizeFromStr x.tmpValue).mapError newError
      if maxEarlyData = 0 then throw (newError "read from query max early data is zero.")
      let newQuery := L.path uri ++ "?" ++ String.ofList (kept x.startIdx x.endIdx 0 query.toList)
      let uri ← (L.build uri.scheme uri.authority newQuery).mapError newError
      return ⟨uri, "Sec-WebSocket-Protocol", maxEarlyData⟩
    else return ⟨uri, "", 0⟩

/-! ### What should become of the query -/

/-- The key of a segment: what is before the first `=`. -/
def keyOf (seg : List Char) : List Char := seg.takeWhile (· ≠ '=')

/-- The value of a segment: what is after the first `=`. -/
def valueOf (seg : List Char) : List Char := (seg.dropWhile (· ≠ '=')).drop 1

/-- A positive number. -/
def positive (value : List Char) : Option ℕ :=
  match usizeFromStr value with
  | .ok n => if n = 0 then none else some n
  | .error _ => none

/-- `seg` is the first segment of the query with the key, between these others. -/
structure FirstEd (query : List Char) (before : List (List Char)) (seg : List Char)
    (after : List (List Char)) : Prop where
  split_eq : query.splitOn '&' = before ++ seg :: after
  key_eq : keyOf seg = ed
  first : ∀ s ∈ before, keyOf s ≠ ed

/-- The URI without its first segment `ed=..`, whose value has to be a positive number; or the URI
as it is, if there is no such segment. -/
structure Rewrites (L : UriLib) (p : Profile) (text : String) (uri : Uri) (query : List Char) :
    Prop where
  accepted : ∀ before seg after n, FirstEd query before seg after →
    positive (valueOf seg) = some n → ∃ r, new L p text = .ok r ∧ r.maxEarlyData = n ∧
      L.query r.uri = some (String.ofList (['&'].intercalate (before ++ [] :: after)))
  rejected : ∀ before seg after, FirstEd query before seg after → positive (valueOf seg) = none →
    ∃ message, new L p text = .error (.err message)
  unchanged : (∀ s ∈ query.splitOn '&', keyOf s ≠ ed) →
    ∃ r, new L p text = .ok r ∧ r.uri = uri ∧ r.maxEarlyData = 0

/-! ### When the segment is taken out -/

/-- The value of a segment, as the loop sees it. -/
def seenOf (seg : List Char) : List Char := (valueOf seg).filter (· ≠ '=')

/-- The first segment with the key, if there is one, has one `=`; or it has none, and is not the
first of the query; or it has more than one, and without them its value is no positive number
either. -/
def OneEquals (query : List Char) : Prop :=
  ∀ before seg after, FirstEd query before seg after →
    seg.count '=' = 1 ∨ (seg.count '=' = 0 ∧ before ≠ []) ∨
      (2 ≤ seg.count '=' ∧ positive (seenOf seg) = none)

/-! ### The segments of a query -/

/-- The separator is in no segment. -/
theorem not_mem_of_mem_splitOn {α : Type} [DecidableEq α] {a : α} {xs seg : List α}
    (h_mem : seg ∈ xs.splitOn a) : a ∉ seg := by
  induction xs generalizing seg with
  | nil => simp_all [List.splitOn_nil]
  | cons x xs ih =>
    obtain ⟨head, rest, h_cut⟩ := List.exists_cons_of_ne_nil (List.splitOn_ne_nil a xs)
    rw [List.splitOn_cons_eq_if_modifyHead] at h_mem
    split at h_mem
    · rcases List.mem_cons.mp h_mem with rfl | h_tail
      · exact List.not_mem_nil
      · exact ih h_tail
    case isFalse h_ne =>
      rw [h_cut, List.modifyHead_cons] at h_mem
      rcases List.mem_cons.mp h_mem with rfl | h_tail
      · have h_head : a ∉ head := ih (by simp [h_cut])
        have h_x : x ≠ a := by simpa using h_ne
        simp [h_head, h_x.symm]
      · exact ih (by simp [h_cut, h_tail])

/-- A list that is put together from segments, around one of them. -/
theorem intercalate_around {α : Type} (a : α) (before : List (List α)) (seg : List α)
    (after : List (List α)) :
    [a].intercalate (before ++ seg :: after) =
      before.flatMap (· ++ [a]) ++ (seg ++ after.flatMap (a :: ·)) := by
  induction before with
  | nil =>
    induction after generalizing seg with
    | nil => simp
    | cons next after ih => simp_all [List.intercalate_cons_cons]
  | cons head before ih =>
    rw [List.cons_append, List.intercalate_cons_of_ne_nil (by simp), ih]
    simp

@[simp] theorem keyOf_equals (cs : List Char) : keyOf ('=' :: cs) = [] := by simp [keyOf]

@[simp] theorem valueOf_equals (cs : List Char) : valueOf ('=' :: cs) = cs := by simp [valueOf]

theorem keyOf_cons {c : Char} (h_c : c ≠ '=') (cs : List Char) :
    keyOf (c :: cs) = c :: keyOf cs := by
  simp [keyOf, h_c]

theorem valueOf_cons {c : Char} (h_c : c ≠ '=') (cs : List Char) :
    valueOf (c :: cs) = valueOf cs := by
  simp [valueOf, h_c]

/-- The characters of a text are its equals signs and the others. -/
theorem length_filter_equals (cs : List Char) :
    cs.count '=' + (cs.filter (· ≠ '=')).length = cs.length := by
  induction cs with
  | nil => rfl
  | cons c cs ih =>
    by_cases h_eq : c = '='
    · subst h_eq
      rw [List.count_cons_self, List.filter_cons_of_neg (by simp), List.length_cons]
      omega
    · rw [List.count_cons_of_ne h_eq, List.filter_cons_of_pos (by simp [h_eq]), List.length_cons,
        List.length_cons]
      omega

/-- The characters of a segment are its key, its equals signs and its value without them. -/
theorem length_segment (seg : List Char) :
    (keyOf seg).length + seg.count '=' + ((valueOf seg).filter (· ≠ '=')).length = seg.length := by
  induction seg with
  | nil => rfl
  | cons c cs ih =>
    by_cases h_eq : c = '='
    · subst h_eq
      have h_rest := length_filter_equals cs
      rw [keyOf_equals, valueOf_equals, List.count_cons_self, List.length_nil, List.length_cons]
      omega
    · rw [keyOf_cons h_eq, valueOf_cons h_eq, List.count_cons_of_ne h_eq, List.length_cons,
        List.length_cons]
      omega

/-! ### The loop -/

/-- After the first `=` of a segment. -/
theorem scan_value (p : Profile) (len : ℕ) {cs : List Char} (h_cs : '&' ∉ cs) (rest : List Char)
    (idx : ℕ) (key value : List Char) :
    scan p len (cs ++ rest) idx key value false =
      scan p len rest (idx + cs.length) key (value ++ cs.filter (· ≠ '=')) false := by
  induction cs generalizing idx value with
  | nil => simp
  | cons c cs ih =>
    have h_c : c ≠ '&' := by rintro rfl; simp at h_cs
    have h_rest : '&' ∉ cs := fun h => h_cs (by simp [h])
    by_cases h_eq : c = '='
    · simp only [List.cons_append, scan, if_pos h_eq, ih h_rest]
      simp [h_eq, Nat.add_assoc, Nat.add_comm 1]
    · simp only [List.cons_append, scan, if_neg h_eq, if_neg h_c, ih h_rest]
      simp [h_eq, Nat.add_assoc, Nat.add_comm 1]

/-- A segment. -/
theorem scan_segment (p : Profile) (len : ℕ) {seg : List Char} (h_seg : '&' ∉ seg)
    (rest : List Char) (idx : ℕ) (key : List Char) :
    ∃ readKey, scan p len (seg ++ rest) idx key [] true =
      scan p len rest (idx + seg.length) (key ++ keyOf seg)
        ((valueOf seg).filter (· ≠ '=')) readKey := by
  induction seg generalizing idx key with
  | nil => exact ⟨true, by simp [keyOf, valueOf]⟩
  | cons c cs ih =>
    have h_c : c ≠ '&' := by rintro rfl; simp at h_seg
    have h_rest : '&' ∉ cs := fun h => h_seg (by simp [h])
    by_cases h_eq : c = '='
    · refine ⟨false, ?_⟩
      simp only [List.cons_append, scan, if_pos h_eq, scan_value p len h_rest]
      simp [keyOf, valueOf, h_eq, Nat.add_assoc, Nat.add_comm 1]
    · obtain ⟨readKey, h_scan⟩ := ih h_rest (idx + 1) (key ++ [c])
      refine ⟨readKey, ?_⟩
      simp only [List.cons_append, scan, if_neg h_eq, if_neg h_c, if_true, h_scan]
      simp [keyOf, valueOf, h_eq, Nat.add_assoc, Nat.add_comm 1]

/-- The segments before the one that is looked for. -/
theorem scan_before (p : Profile) (len : ℕ) {before : List (List Char)}
    (h_sep : ∀ s ∈ before, '&' ∉ s) (h_key : ∀ s ∈ before, keyOf s ≠ ed) (rest : List Char)
    (idx : ℕ) :
    scan p len (before.flatMap (· ++ ['&']) ++ rest) idx [] [] true =
      scan p len rest (idx + (before.flatMap (· ++ ['&'])).length) [] [] true := by
  induction before generalizing idx with
  | nil => simp
  | cons s before ih =>
    obtain ⟨readKey, h_scan⟩ := scan_segment p len (h_sep s (by simp))
      ('&' :: (before.flatMap (· ++ ['&']) ++ rest)) idx []
    have h_ne : keyOf s ≠ ed := h_key s (by simp)
    have h_next := ih (fun t h => h_sep t (by simp [h])) (fun t h => h_key t (by simp [h]))
      (idx + s.length + 1)
    simp only [List.flatMap_cons, List.append_assoc, List.cons_append, List.nil_append, h_scan,
      scan, Char.reduceEq, if_false, if_true, h_ne, h_next]
    congr 1
    simp only [List.length_append, List.length_cons]
    omega

theorem byteLen_ascii {cs : List Char} (h_ascii : ∀ c ∈ cs, c.val ≤ 0x7f) :
    byteLen cs = cs.length := by
  induction cs with
  | nil => rfl
  | cons c cs ih =>
    have h_size : c.utf8Size = 1 := Char.utf8Size_eq_one_iff.mpr (h_ascii c (by simp))
    have h_rest : byteLen cs = cs.length := ih fun d h => h_ascii d (by simp [h])
    simp only [byteLen, List.map_cons, List.sum_cons, List.length_cons] at h_rest ⊢
    omega

section Found

variable {query : List Char} {before after : List (List Char)} {seg : List Char}

theorem FirstEd.query_eq (h_first : FirstEd query before seg after) :
    query = before.flatMap (· ++ ['&']) ++ (seg ++ after.flatMap ('&' :: ·)) := by
  rw [← intercalate_around, ← h_first.split_eq, List.intercalate_splitOn]

theorem FirstEd.not_mem (h_first : FirstEd query before seg after) :
    '&' ∉ seg ∧ ∀ s ∈ before, '&' ∉ s := by
  have h_all : ∀ s ∈ before ++ seg :: after, '&' ∉ s := fun s h_mem =>
    not_mem_of_mem_splitOn (h_first.split_eq ▸ h_mem)
  exact ⟨h_all seg (by simp), fun s h_mem => h_all s (by simp [h_mem])⟩

theorem FirstEd.length_seg (h_first : FirstEd query before seg after) :
    seg.length = 2 + seg.count '=' + (seenOf seg).length := by
  rw [← length_segment seg, h_first.key_eq]
  rfl

/-- Where the segment begins. -/
def offset (before : List (List Char)) : ℕ := (before.flatMap (· ++ ['&'])).length

theorem offset_eq_zero : offset before = 0 ↔ before = [] := by
  cases before with
  | nil => simp [offset]
  | cons s before => simp [offset]

/-- The segment is found, with its end. -/
theorem locate_found (p : Profile) (h_ascii : ∀ c ∈ query, c.val ≤ 0x7f)
    (h_first : FirstEd query before seg after) :
    locate p query = do
      let startIdx ← startOf p (offset before + seg.length) ed (seenOf seg)
      return ⟨ed, seenOf seg, true, startIdx, offset before + seg.length⟩ := by
  obtain ⟨h_seg, h_before⟩ := h_first.not_mem
  obtain ⟨readKey, h_scan⟩ := scan_segment p (byteLen query) h_seg (after.flatMap ('&' :: ·))
    (offset before) []
  have h_loop : scan p (byteLen query) query 0 [] [] true =
      scan p (byteLen query) (after.flatMap ('&' :: ·)) (offset before + seg.length) ed (seenOf seg)
        readKey := by
    rw [List.nil_append, h_first.key_eq] at h_scan
    conv_lhs => arg 3; rw [h_first.query_eq]
    rw [scan_before p _ h_before h_first.first, Nat.zero_add]
    exact h_scan
  rw [locate, h_loop]
  -- the end of the segment is an `&`, or the end of the query
  cases h_after : after with
  | nil =>
    have h_end : byteLen query = offset before + seg.length := by
      rw [byteLen_ascii h_ascii, h_first.query_eq, h_after]
      simp [offset]
    simp [scan, h_end]
  | cons next after =>
    cases h_start : startOf p (offset before + seg.length) ed (seenOf seg) with
    | error f => simp [scan, h_start, bind, Except.bind]
    | ok startIdx => simp [scan, h_start, pure, Except.pure]

/-- It begins where it should if it has one `=`; and at 1 less if it has none, for each `=` more at
1 more. -/
theorem startOf_found (p : Profile) (h_ascii : ∀ c ∈ query, c.val ≤ 0x7f)
    (h_first : FirstEd query before seg after) :
    startOf p (offset before + seg.length) ed (seenOf seg) =
      p.sub 64 (offset before + seg.count '=') 1 := by
  have h_seen : byteLen (seenOf seg) = (seenOf seg).length := by
    refine byteLen_ascii fun c h_mem => h_ascii c ?_
    have h_value : c ∈ valueOf seg := List.mem_of_mem_filter h_mem
    have h_seg : c ∈ seg := (List.dropWhile_sublist _).subset (List.mem_of_mem_drop h_value)
    rw [h_first.query_eq]
    simp [h_seg]
  have h_key : byteLen ed = 2 := by decide
  have h_len := h_first.length_seg
  have h_value : p.sub 64 (offset before + seg.length) (seenOf seg).length =
      .ok (offset before + seg.count '=' + 2) := by
    rw [Profile.sub_of_le (by omega)]
    exact congrArg _ (by omega)
  have h_both : p.sub 64 (offset before + seg.count '=' + 2) 2 =
      .ok (offset before + seg.count '=') := Profile.sub_of_le (by omega)
  simp only [startOf, h_seen, h_key, h_value, bind, Except.bind, h_both]

theorem locate_of_pos (p : Profile) (h_ascii : ∀ c ∈ query, c.val ≤ 0x7f)
    (h_first : FirstEd query before seg after) (h_pos : 1 ≤ offset before + seg.count '=') :
    locate p query = .ok ⟨ed, seenOf seg, true, offset before + seg.count '=' - 1,
      offset before + seg.length⟩ := by
  rw [locate_found p h_ascii h_first, startOf_found p h_ascii h_first, Profile.sub_of_le h_pos]
  rfl

/-- With nothing before the segment and no `=` in it, there is no such position. -/
theorem locate_underflow (h_ascii : ∀ c ∈ query, c.val ≤ 0x7f)
    (h_first : FirstEd query [] seg after) (h_count : seg.count '=' = 0) :
    locate .debug query = .error .overflow := by
  rw [locate_found .debug h_ascii h_first, startOf_found .debug h_ascii h_first, h_count]
  rfl

/-- There is no such segment. -/
theorem locate_unfound (p : Profile) (h_none : ∀ s ∈ query.splitOn '&', keyOf s ≠ ed) :
    ∃ x, locate p query = .ok x ∧ x.foundEd = false := by
  -- the last segment is looked at after the loop, all others in it
  obtain ⟨before, last, h_cut⟩ :
      ∃ before last, query.splitOn '&' = before ++ last :: ([] : List (List Char)) :=
    ⟨_, _, (List.dropLast_append_getLast (List.splitOn_ne_nil '&' query)).symm⟩
  have h_sep : ∀ s ∈ before ++ [last], '&' ∉ s := fun s h_mem =>
    not_mem_of_mem_splitOn (h_cut ▸ h_mem)
  rw [h_cut] at h_none
  obtain ⟨readKey, h_scan⟩ := scan_segment p (byteLen query) (h_sep last (by simp)) []
    (0 + (before.flatMap (· ++ ['&'])).length) []
  have h_query : query = before.flatMap (· ++ ['&']) ++ (last ++ []) := by
    have h_whole : ['&'].intercalate (query.splitOn '&') = query := List.intercalate_splitOn '&'
    rw [h_cut, intercalate_around] at h_whole
    exact h_whole.symm
  have h_loop : scan p (byteLen query) query 0 [] [] true =
      .ok ⟨keyOf last, seenOf last, false, 0, byteLen query⟩ := by
    conv_lhs => arg 3; rw [h_query]
    rw [scan_before p _ (fun s h_mem => h_sep s (by simp [h_mem]))
      (fun s h_mem => h_none s (by simp [h_mem])), h_scan]
    rfl
  refine ⟨⟨keyOf last, seenOf last, false, 0, byteLen query⟩, ?_, rfl⟩
  have h_last : keyOf last ≠ ed := h_none last (by simp)
  rw [locate, h_loop]
  simp only [bind, Except.bind, h_last, false_and, if_false, pure, Except.pure]

end Found

/-! ### The characters that are kept -/

/-- The second part of a text is kept as it is alone, with its characters counted from where the
first part ends. -/
theorem kept_append (startIdx endIdx idx : ℕ) (xs ys : List Char) :
    kept startIdx endIdx idx (xs ++ ys) =
      kept startIdx endIdx idx xs ++ kept startIdx endIdx (idx + xs.length) ys := by
  induction xs generalizing idx with
  | nil => rfl
  | cons x xs ih =>
    have h_idx : idx + 1 + xs.length = idx + (x :: xs).length := by simp; omega
    simp only [List.cons_append, kept, ih, h_idx]
    split <;> rfl

theorem kept_outside {startIdx endIdx idx : ℕ} {cs : List Char}
    (h_out : idx + cs.length ≤ startIdx ∨ endIdx ≤ idx) : kept startIdx endIdx idx cs = cs := by
  induction cs generalizing idx with
  | nil => rfl
  | cons c cs ih =>
    rw [List.length_cons] at h_out
    rw [kept, if_neg (by omega), ih (by omega)]

theorem kept_inside {startIdx endIdx idx : ℕ} {cs : List Char} (h_start : startIdx ≤ idx)
    (h_end : idx + cs.length ≤ endIdx) : kept startIdx endIdx idx cs = [] := by
  induction cs generalizing idx with
  | nil => rfl
  | cons c cs ih =>
    rw [List.length_cons] at h_end
    rw [kept, if_pos (by omega), ih (by omega) (by omega)]

theorem kept_sublist (startIdx endIdx idx : ℕ) (cs : List Char) :
    (kept startIdx endIdx idx cs).Sublist cs := by
  induction cs generalizing idx with
  | nil => exact List.Sublist.slnil
  | cons c cs ih =>
    rw [kept]
    split
    · exact (ih _).cons c
    · exact (ih _).cons_cons c

/-- A segment that is taken out. -/
theorem kept_segment {query : List Char} {before after : List (List Char)} {seg : List Char}
    (h_first : FirstEd query before seg after) :
    kept (offset before) (offset before + seg.length) 0 query =
      ['&'].intercalate (before ++ [] :: after) := by
  rw [h_first.query_eq, intercalate_around, kept_append, kept_append,
    kept_outside (by simp [offset]), kept_inside (by simp [offset]) (by simp [offset]),
    kept_outside (by simp [offset])]

/-! ### The whole -/

section Whole

variable {L : UriLib} {p : Profile} {text q : String} {uri : Uri}

theorem new_unchanged (h_parse : L.parse text = .ok uri) (h_query : L.query uri = some q)
    {x : Scanned} (h_locate : locate p q.toList = .ok x) (h_found : x.foundEd = false) :
    new L p text = .ok ⟨uri, "", 0⟩ := by
  simp [new, h_parse, h_query, h_locate, h_found, Except.mapError, bind, Except.bind, pure,
    Except.pure]

theorem new_fault (h_parse : L.parse text = .ok uri) (h_query : L.query uri = some q)
    {f : Fault} (h_locate : locate p q.toList = .error f) : new L p text = .error (.fault f) := by
  simp [new, h_parse, h_query, h_locate, Except.mapError, bind, Except.bind]

/-- The value that has been found is no positive number. -/
theorem new_rejected (h_parse : L.parse text = .ok uri) (h_query : L.query uri = some q)
    {key value : List Char} {startIdx endIdx : ℕ}
    (h_locate : locate p q.toList = .ok ⟨key, value, true, startIdx, endIdx⟩)
    (h_value : positive value = none) : ∃ message, new L p text = .error (.err message) := by
  rw [positive] at h_value
  cases h_num : usizeFromStr value with
  | error message =>
    exact ⟨_, by simp [new, h_parse, h_query, h_locate, h_num, Except.mapError, bind, Except.bind,
      newError]; rfl⟩
  | ok n =>
    have h_zero : n = 0 := by simpa [h_num] using h_value
    subst h_zero
    exact ⟨_, by simp [new, h_parse, h_query, h_locate, h_num, Except.mapError, bind, Except.bind,
      newError, throw, throwThe, MonadExceptOf.throw]; rfl⟩

/-- The value that has been found is a positive number. -/
theorem new_accepted (h_lawful : L.Lawful) (h_parse : L.parse text = .ok uri)
    (h_query : L.query uri = some q) {key value : List Char} {startIdx endIdx n : ℕ}
    (h_locate : locate p q.toList = .ok ⟨key, value, true, startIdx, endIdx⟩)
    (h_value : positive value = some n) :
    ∃ r, new L p text = .ok r ∧ r.maxEarlyData = n ∧
      L.query r.uri = some (String.ofList (kept startIdx endIdx 0 q.toList)) := by
  obtain ⟨uri', h_build, h_query'⟩ := h_lawful.build_query h_parse h_query
    (kept_sublist startIdx endIdx 0 q.toList)
  have h_num : usizeFromStr value = .ok n ∧ n ≠ 0 := by
    rw [positive] at h_value
    cases h_read : usizeFromStr value with
    | error message => simp [h_read] at h_value
    | ok m =>
      by_cases h_zero : m = 0
      · simp [h_read, h_zero] at h_value
      · simp only [h_read, if_neg h_zero, Option.some.injEq] at h_value
        exact ⟨h_value ▸ rfl, h_value ▸ h_zero⟩
  refine ⟨⟨uri', "Sec-WebSocket-Protocol", n⟩, ?_, rfl, h_query'⟩
  simp [new, h_parse, h_query, h_locate, h_num.1, h_num.2, h_build, Except.mapError, bind,
    Except.bind, pure, Except.pure]

end Whole

/-! ### Numbers -/

/-- A text with an equals sign is no number. -/
theorem foldlM_usizeDigit_ne_ok {cs : List Char} (h_mem : '=' ∈ cs) (value n : ℕ) :
    cs.foldlM usizeDigit value ≠ .ok n := by
  induction cs generalizing value with
  | nil => simp at h_mem
  | cons c cs ih =>
    rw [List.foldlM_cons]
    rcases List.mem_cons.mp h_mem with rfl | h_rest
    · have h_digit : usizeDigit value '=' = .error "invalid digit found in string" := rfl
      rw [h_digit]
      nofun
    · cases h_digit : usizeDigit value c with
      | error message => nofun
      | ok value' => exact ih h_rest value'

/-- A number has no `=`. -/
theorem positive_eq_none {value : List Char} (h_mem : '=' ∈ value) : positive value = none := by
  have h_num (n : ℕ) : usizeFromStr value ≠ .ok n := by
    unfold usizeFromStr
    split
    · nofun
    · nofun
    · exact foldlM_usizeDigit_ne_ok (by simpa using h_mem) 0 n
    · exact foldlM_usizeDigit_ne_ok h_mem 0 n
  rw [positive]
  cases h_read : usizeFromStr value with
  | error message => rfl
  | ok n => exact absurd h_read (h_num n)

/-- The first `=` of a segment ends its key; the others are in its value. -/
theorem count_segment {seg : List Char} (h_equals : '=' ∈ seg) :
    seg.count '=' = 1 + (valueOf seg).count '=' := by
  induction seg with
  | nil => simp at h_equals
  | cons c cs ih =>
    by_cases h_eq : c = '='
    · subst h_eq
      rw [List.count_cons_self, valueOf_equals, Nat.add_comm]
    · have h_rest : '=' ∈ cs := (List.mem_cons.mp h_equals).resolve_left (Ne.symm h_eq)
      rw [List.count_cons_of_ne h_eq, valueOf_cons h_eq, ih h_rest]

/-- With one `=`, the loop sees the value as it is. -/
theorem seenOf_eq {seg : List Char} (h_one : seg.count '=' = 1) : seenOf seg = valueOf seg := by
  have h_equals : '=' ∈ seg := List.count_pos_iff.mp (by omega)
  have h_none : '=' ∉ valueOf seg := by
    have := count_segment h_equals
    exact List.count_eq_zero.mp (by omega)
  exact List.filter_eq_self.mpr fun c h_mem => decide_eq_true fun h_eq => h_none (h_eq ▸ h_mem)

theorem valueOf_eq_nil {seg : List Char} (h_equals : '=' ∉ seg) : valueOf seg = [] := by
  induction seg with
  | nil => rfl
  | cons c cs ih =>
    rw [List.mem_cons, not_or] at h_equals
    rw [valueOf_cons (Ne.symm h_equals.1), ih h_equals.2]

/-- With no `=`, or with more than one, the value is no positive number. -/
theorem positive_valueOf {seg : List Char} (h_count : seg.count '=' ≠ 1) :
    positive (valueOf seg) = none := by
  by_cases h_equals : '=' ∈ seg
  · have h_more := count_segment h_equals
    exact positive_eq_none (List.count_pos_iff.mp (by omega))
  · rw [valueOf_eq_nil h_equals]
    rfl

/-! ### The segment that is taken out -/

section Rewriting

variable {L : UriLib} {text q : String} {uri : Uri} {before after : List (List Char)}
  {seg : List Char}

/-- What `new` makes of the segment, where its position is a number. -/
theorem rewrites_segment (h_lawful : L.Lawful) (h_parse : L.parse text = .ok uri)
    (h_query : L.query uri = some q) (h_equals : OneEquals q.toList)
    (h_first : FirstEd q.toList before seg after) (p : Profile) :
    (∀ n, positive (valueOf seg) = some n →
      ∃ r, new L p text = .ok r ∧ r.maxEarlyData = n ∧
        L.query r.uri = some (String.ofList (['&'].intercalate (before ++ [] :: after)))) ∧
    (positive (valueOf seg) = none → ∃ message, new L p text = .error (.err message)) := by
  have h_ascii := h_lawful.query_ascii h_parse h_query
  have h_case := h_equals before seg after h_first
  have h_pos : 1 ≤ offset before + seg.count '=' := by
    rcases h_case with h_one | ⟨-, h_before⟩ | ⟨h_two, -⟩
    · omega
    · have := offset_eq_zero.not.mpr h_before
      omega
    · omega
  have h_locate := locate_of_pos p h_ascii h_first h_pos
  constructor
  · intro n h_value
    -- a value that is a number has no `=` itself, so that what the loop has seen is the value
    have h_one : seg.count '=' = 1 := by
      by_contra h_count
      rw [positive_valueOf h_count] at h_value
      cases h_value
    rw [h_one, Nat.add_sub_cancel, seenOf_eq h_one] at h_locate
    rw [← kept_segment h_first]
    exact new_accepted h_lawful h_parse h_query h_locate h_value
  · intro h_value
    refine new_rejected h_parse h_query h_locate ?_
    rcases h_case with h_one | ⟨h_zero, -⟩ | ⟨-, h_seen⟩
    · rwa [seenOf_eq h_one]
    · rw [seenOf, valueOf_eq_nil (List.count_eq_zero.mp h_zero)]
      rfl
    · exact h_seen

/-- The segment `ed=..` is taken out of the query, and nothing else, if and only if it has one `=`,
or is rejected whatever its position. -/
theorem rewrites_iff (h_lawful : L.Lawful) (h_parse : L.parse text = .ok uri)
    (h_query : L.query uri = some q) :
    (∀ p, Rewrites L p text uri q.toList) ↔ OneEquals q.toList := by
  have h_ascii := h_lawful.query_ascii h_parse h_query
  constructor
  · intro h_rewrites before seg after h_first
    rcases Nat.lt_trichotomy (seg.count '=') 1 with h_zero | h_one | h_more
    · have h_count : seg.count '=' = 0 := by omega
      refine .inr (.inl ⟨h_count, ?_⟩)
      rintro rfl
      -- the position is below zero: a panic in place of an error
      obtain ⟨message, h_err⟩ := (h_rewrites .debug).rejected _ _ _ h_first
        (positive_valueOf (by omega))
      rw [new_fault h_parse h_query (locate_underflow h_ascii h_first h_count)] at h_err
      cases h_err
    · exact .inl h_one
    · refine .inr (.inr ⟨h_more, ?_⟩)
      by_contra h_seen
      -- the value without its `=` is taken for the number
      obtain ⟨n, h_some⟩ := Option.ne_none_iff_exists'.mp h_seen
      obtain ⟨r, h_ok, -⟩ := new_accepted h_lawful h_parse h_query
        (locate_of_pos .release h_ascii h_first (by omega)) h_some
      obtain ⟨message, h_err⟩ := (h_rewrites .release).rejected _ _ _ h_first
        (positive_valueOf (by omega))
      rw [h_ok] at h_err
      cases h_err
  · intro h_equals p
    refine ⟨?_, ?_, ?_⟩
    · intro before seg after n h_first h_value
      exact (rewrites_segment h_lawful h_parse h_query h_equals h_first p).1 n h_value
    · intro before seg after h_first h_value
      exact (rewrites_segment h_lawful h_parse h_query h_equals h_first p).2 h_value
    · intro h_none
      obtain ⟨x, h_locate, h_found⟩ := locate_unfound p h_none
      exact ⟨_, new_unchanged h_parse h_query h_locate h_found, rfl, rfl⟩

end Rewriting

/-- The URIs with this scheme and this host. -/
def wsLib : UriLib where
  parse text :=
    if "ws://h".toList.isPrefixOf text.toList && text.toList.all (·.val ≤ 0x7f) then
      .ok ⟨some "ws", some "h", String.ofList (text.toList.drop 6)⟩
    else .error "invalid uri character"
  path uri := String.ofList (uri.pathAndQuery.toList.takeWhile (· ≠ '?'))
  query uri :=
    match uri.pathAndQuery.toList.dropWhile (· ≠ '?') with
    | [] => none
    | _ :: query => some (String.ofList query)
  build scheme authority pathAndQuery := .ok ⟨scheme, authority, pathAndQuery⟩

/-- What is assumed of a URI parser is satisfiable. -/
theorem wsLib_lawful : wsLib.Lawful where
  query_ascii {text query uri} h_parse h_query c h_mem := by
    simp only [wsLib] at h_parse h_query
    split at h_parse
    case isFalse => cases h_parse
    case isTrue h_text =>
      rw [Bool.and_eq_true, List.all_eq_true] at h_text
      cases h_parse
      rw [String.toList_ofList] at h_query
      -- the query is a part of the text
      have h_all : ∀ d ∈ (text.toList.drop 6).dropWhile (· ≠ '?'), d.val ≤ 0x7f := fun d h_drop =>
        of_decide_eq_true
          (h_text.2 d (List.mem_of_mem_drop ((List.dropWhile_sublist _).subset h_drop)))
      split at h_query
      · cases h_query
      case h_2 mark rest h_drop =>
        cases h_query
        rw [String.toList_ofList] at h_mem
        exact h_all c (h_drop ▸ List.mem_cons_of_mem _ h_mem)
  build_query {text query uri} h_parse h_query kept h_kept := by
    refine ⟨⟨uri.scheme, uri.authority, _⟩, rfl, ?_⟩
    have h_path : ∀ c ∈ uri.pathAndQuery.toList.takeWhile (· ≠ '?'), decide (c ≠ '?') = true :=
      fun c h_mem => List.mem_takeWhile_imp (p := fun c => decide (c ≠ '?')) h_mem
    have h_drop : ((uri.pathAndQuery.toList.takeWhile (· ≠ '?') ++ ['?']) ++ kept).dropWhile
        (· ≠ '?') = '?' :: kept := by
      rw [List.append_assoc, List.dropWhile_append_of_pos h_path]
      rfl
    simp only [wsLib, String.toList_append, String.toList_ofList]
    rw [show "?".toList = ['?'] from rfl, h_drop]

theorem oneEquals_single {seg : List Char} (h_sep : '&' ∉ seg) (h_one : seg.count '=' = 1) :
    OneEquals seg := by
  intro before seg' after h_first
  have h_cut := h_first.split_eq
  rw [List.splitOn_eq_singleton h_sep] at h_cut
  cases before with
  | nil =>
    cases h_cut
    exact .inl h_one
  | cons s before => simp at h_cut

theorem rewrites_iff_one :
    Rewrites wsLib .debug "ws://h/?ed=5" ⟨some "ws", some "h", "/?ed=5"⟩ "ed=5".toList :=
  (rewrites_iff (q := "ed=5") wsLib_lawful rfl rfl).mpr
    (oneEquals_single (by decide) (by decide)) .debug

/-- A segment without `=`, at the start of the query: its position is -1. -/
theorem rewrites_key : ¬ ∀ p,
    Rewrites wsLib p "ws://h/?ed" ⟨some "ws", some "h", "/?ed"⟩ "ed".toList := by
  intro h_rewrites
  have h_first : FirstEd "ed".toList [] "ed".toList [] :=
    ⟨List.splitOn_eq_singleton (by decide), by decide, by simp⟩
  have h_fault : new wsLib .debug "ws://h/?ed" = .error (.fault .overflow) := by decide +kernel
  obtain ⟨message, h_err⟩ := (h_rewrites .debug).rejected _ _ _ h_first (by decide)
  rw [h_fault] at h_err
  cases h_err

example : (new wsLib .debug "ws://h/?a=b&ed=20=48").map
    (fun r => (r.uri.pathAndQuery, r.maxEarlyData)) = .ok ("/?a=b&e", 2048) := by
  decide +kernel

end EarlyDataUri
end V2ray
