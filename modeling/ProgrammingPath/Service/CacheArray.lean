import ProgrammingPath.Lib.Memory
import ProgrammingPath.Lib.Run

/-!
# The byte buffer of a session (`poll_test/cache_array.h`)

A block of memory with two pointers: the bytes between `use_sptr` and `use_eptr` are a queue that is
filled behind and emptied in front. When there is not enough room behind, the bytes are moved to the
beginning of the block. That is done with `memcpy`, which is not defined for places that overlap; as
long as there are no more bytes than have been taken out before them, they do not.
-/

namespace ProgrammingPath.ByteCache

open ProgrammingPath.Lib

/-! ## The code -/

/-- `struct cache_array`; the pointers are offsets into `data`. -/
structure CacheArray where
  data : Mem
  size : Nat
  useSptr : Nat
  useEptr : Nat

/-- Why an operation does not return: what it does is not defined, or it calls `exit(-1)`. -/
inductive Halt
  | undefined
  | exit
  deriving DecidableEq

/-- `cache_array_init`; `data` is what `malloc` finds in the block. -/
def cacheArrayInit (data : Mem) (size : Nat) : CacheArray := ⟨data, size, 0, 0⟩

/-- `cache_array_uselen`. -/
def uselen (array : CacheArray) : Int := array.useEptr - array.useSptr

/-- `cache_array_remainlen`. -/
def remainlen (array : CacheArray) : Int := array.size - array.useEptr

/-- `memcpy` inside the block. -/
def copyInside (data : Mem) (dst src n : Nat) : Except Halt Mem :=
  if n = 0 ∨ dst + n ≤ src ∨ src + n ≤ dst then .ok (data.write dst (data.bytes src n))
  else .error .undefined

/-- `memcpy` into the block from elsewhere. -/
def copyInto (array : CacheArray) (dst : Nat) (bytes : List UInt8) : Except Halt Mem :=
  if dst + bytes.length ≤ array.size then .ok (array.data.write dst bytes) else .error .undefined

/-- The bytes are moved to the beginning. -/
def toFront (array : CacheArray) : Except Halt CacheArray := do
  let data ← copyInside array.data 0 array.useSptr (array.useEptr - array.useSptr)
  return { array with data := data, useEptr := array.useEptr - array.useSptr, useSptr := 0 }

/-- `cache_array_remainlen_tran`. -/
def cacheArrayRemainlenTran (array : CacheArray) : Except Halt (CacheArray × Int) := do
  let array ← (if array.useSptr ≠ 0 then toFront array else .ok array)
  return (array, remainlen array)

/-- Bytes are put behind the others and `use_eptr` moves on, which must not leave the block. -/
def put (array : CacheArray) (bytes : List UInt8) : Except Halt CacheArray := do
  let block ← copyInto array array.useEptr bytes
  let array := { array with data := block, useEptr := array.useEptr + bytes.length }
  if array.size < array.useEptr then .error .exit else return array

/-- `cache_array_remaindata_append`. -/
def cacheArrayRemaindataAppend (array : CacheArray) (data : List UInt8) :
    Except Halt (CacheArray × Int) := do
  let array ← (if remainlen array < data.length ∧ array.useSptr ≠ 0 then toFront array else .ok array)
  let size : Int := if remainlen array < data.length then remainlen array else data.length
  let array ← put array (data.take size.toNat)
  return (array, size)

/-- `cache_array_uselen_add` of bytes that were written at `cache_array_remainptr`. -/
def cacheArrayUselenAdd (array : CacheArray) (bytes : List UInt8) : Except Halt (CacheArray × Int) := do
  let array ← put array bytes
  return (array, uselen array)

/-- `cache_array_usedlen_sub`. -/
def cacheArrayUsedlenSub (array : CacheArray) (len : Nat) : CacheArray :=
  { array with useSptr := array.useSptr + len }

/-- A call of one of the operations. -/
inductive Act
  | append (data : List UInt8)
  | add (bytes : List UInt8)
  | sub (len : Nat)
  | tran

/-- The operation and what it returns. -/
def act (array : CacheArray) : Act → Except Halt (CacheArray × Int)
  | .append data => cacheArrayRemaindataAppend array data
  | .add bytes => cacheArrayUselenAdd array bytes
  | .sub len => .ok (cacheArrayUsedlenSub array len, 0)
  | .tran => cacheArrayRemainlenTran array

/-- One operation after the other, as long as they return. -/
def step (array : CacheArray) (a : Act) : Option CacheArray := (act array a).toOption.map Prod.fst

/-- What the callers see to: no more is added than there is room for behind, and no more is taken out
than there is. -/
def Allowed (array : CacheArray) : Act → Prop
  | .add bytes => bytes.length ≤ remainlen array
  | .sub len => len ≤ uselen array
  | _ => True

/-- When the bytes are moved, no more of them are left than have been taken out before them. -/
def Apart (array : CacheArray) : Act → Prop
  | .append data => remainlen array < data.length → array.useSptr ≠ 0 → uselen array ≤ array.useSptr
  | .tran => array.useSptr ≠ 0 → uselen array ≤ array.useSptr
  | _ => True

instance (array : CacheArray) : (a : Act) → Decidable (Allowed array a)
  | .append _ => inferInstanceAs (Decidable True)
  | .add bytes => inferInstanceAs (Decidable ((bytes.length : Int) ≤ remainlen array))
  | .sub len => inferInstanceAs (Decidable ((len : Int) ≤ uselen array))
  | .tran => inferInstanceAs (Decidable True)

/-! ## A bounded queue of bytes -/

/-- What an operation does to the queue. -/
def enqueue (size : Nat) (q : List UInt8) : Act → List UInt8
  | .append data => q ++ data.take (size - q.length)
  | .add bytes => q ++ bytes
  | .sub len => q.drop len
  | .tran => q

/-- What an operation returns. -/
def answer (size : Nat) (q : List UInt8) : Act → Int
  | .append data => min data.length (size - q.length)
  | .add bytes => q.length + bytes.length
  | .sub _ => 0
  | .tran => size - q.length

/-- The bytes between the pointers are the queue, and the pointers are in order. -/
structure Represents (size : Nat) (array : CacheArray) (q : List UInt8) : Prop where
  size_eq : array.size = size
  sptr_le : array.useSptr ≤ array.useEptr
  eptr_le : array.useEptr ≤ size
  bytes_eq : array.data.bytes array.useSptr (array.useEptr - array.useSptr) = q

/-- The operations can all be done, beginning with a buffer that holds `q`: after any number of them
the buffer holds the queue, and the next one returns what it does of the queue. -/
def Refines (size : Nat) (array : CacheArray) (q : List UInt8) (acts : List Act) : Prop :=
  ∀ as bs, acts = as ++ bs →
    ∃ array', run step array as = some array' ∧ Represents size array' (as.foldl (enqueue size) q) ∧
      ∀ a ∈ bs.head?, ∃ array'', act array' a = .ok (array'', answer size (as.foldl (enqueue size) q) a)

variable {size : Nat} {array : CacheArray} {q : List UInt8}

/-! ## One operation -/

theorem represents_init (data : Mem) (size : Nat) : Represents size (cacheArrayInit data size) [] :=
  ⟨rfl, Nat.le_refl 0, Nat.zero_le size, rfl⟩

theorem Represents.length_eq (h : Represents size array q) :
    q.length = array.useEptr - array.useSptr := by
  rw [← h.bytes_eq, Mem.length_bytes]

theorem Represents.uselen_eq (h : Represents size array q) : uselen array = q.length := by
  have hlen := h.length_eq
  have hle := h.sptr_le
  unfold uselen
  omega

theorem Represents.remainlen_eq (h : Represents size array q) :
    remainlen array = size - array.useSptr - q.length := by
  have hlen := h.length_eq
  have hle := h.sptr_le
  unfold remainlen
  rw [h.size_eq]
  omega

/-- The bytes are moved to the beginning when they do not overlap their new place. -/
theorem Represents.toFront (h : Represents size array q) (hapart : q.length ≤ array.useSptr) :
    ∃ array', toFront array = .ok array' ∧ Represents size array' q ∧ array'.useSptr = 0 := by
  have hlen := h.length_eq
  have hle := h.eptr_le
  have hcopy : copyInside array.data 0 array.useSptr (array.useEptr - array.useSptr) =
      .ok (array.data.write 0 q) := by
    unfold copyInside
    rw [if_pos (by omega), h.bytes_eq]
    rfl
  let array' : CacheArray :=
    { array with data := array.data.write 0 q, useEptr := array.useEptr - array.useSptr, useSptr := 0 }
  refine ⟨array', ?_, ⟨h.size_eq, Nat.zero_le _, ?_, ?_⟩, rfl⟩
  · unfold ByteCache.toFront
    rw [hcopy]
    rfl
  · show array.useEptr - array.useSptr ≤ size
    omega
  · show (array.data.write 0 q).bytes 0 (array.useEptr - array.useSptr - 0) = q
    rw [Nat.sub_zero, ← hlen]
    exact Mem.bytes_write_self _

/-- Otherwise what happens is not defined. -/
theorem Represents.toFront_undefined (h : Represents size array q)
    (hover : array.useSptr < q.length) : ByteCache.toFront array = .error .undefined := by
  have hlen := h.length_eq
  unfold ByteCache.toFront copyInside
  rw [if_neg (by omega)]
  rfl

/-- Bytes that fit behind the others. -/
theorem Represents.put (h : Represents size array q) {bytes : List UInt8}
    (hfit : array.useEptr + bytes.length ≤ size) :
    ∃ array', put array bytes = .ok array' ∧ Represents size array' (q ++ bytes) := by
  have hle := h.sptr_le
  have hpos : (array.useEptr : Int) = array.useSptr + (array.useEptr - array.useSptr : Nat) := by omega
  let array' : CacheArray :=
    { array with
      data := array.data.write array.useEptr bytes, useEptr := array.useEptr + bytes.length }
  have hcopy : copyInto array array.useEptr bytes = .ok array'.data := by
    unfold copyInto
    rw [h.size_eq, if_pos hfit]
  have hinside : ¬array'.size < array'.useEptr := by
    rw [show array'.size = size from h.size_eq]
    exact Nat.not_lt.mpr hfit
  refine ⟨array', ?_, h.size_eq, Nat.le_add_right_of_le hle, hfit, ?_⟩
  · unfold ByteCache.put
    rw [hcopy]
    exact if_neg hinside
  · show (array.data.write array.useEptr bytes).bytes array.useSptr
      (array.useEptr + bytes.length - array.useSptr) = q ++ bytes
    rw [Nat.sub_add_comm hle, Mem.bytes_write_append _ hpos, h.bytes_eq]

/-- `cache_array_remaindata_append`, once there is room for the bytes behind, or as much room behind as
there is at all. -/
theorem Represents.putSome (h : Represents size array q) {data : List UInt8}
    (hroom : data.length ≤ remainlen array ∨ array.useSptr = 0) :
    (if remainlen array < data.length then remainlen array else (data.length : Int)) =
        answer size q (.append data) ∧
      ∃ array', ByteCache.put array (data.take (answer size q (.append data)).toNat) = .ok array' ∧
        Represents size array' (enqueue size q (.append data)) := by
  have hlen := h.length_eq
  have hrem := h.remainlen_eq
  have hsptr := h.sptr_le
  have heptr := h.eptr_le
  have hanswer : answer size q (.append data) = (min data.length (size - q.length) : Nat) := by
    show min (data.length : Int) (size - q.length) = _
    omega
  have htake : data.take (answer size q (.append data)).toNat = data.take (size - q.length) := by
    rw [hanswer, Int.toNat_natCast, Nat.min_comm, ← List.take_take, List.take_length]
  have hfit : array.useEptr + (data.take (size - q.length)).length ≤ size := by
    rw [List.length_take]
    omega
  rw [htake, hanswer]
  refine ⟨?_, h.put hfit⟩
  split
  · omega
  · omega

/-- `cache_array_remaindata_append` when the bytes are not moved, or have been moved. -/
theorem append_of_room {array' : CacheArray} (h : Represents size array' q) {data : List UInt8}
    (hroom : data.length ≤ remainlen array' ∨ array'.useSptr = 0)
    (hmoved : (if remainlen array < data.length ∧ array.useSptr ≠ 0 then toFront array else .ok array) =
      .ok array') :
    ∃ array'', act array (.append data) = .ok (array'', answer size q (.append data)) ∧
      Represents size array'' (enqueue size q (.append data)) := by
  obtain ⟨hsize, array'', hput, hrepr⟩ := h.putSome hroom
  refine ⟨array'', ?_, hrepr⟩
  show cacheArrayRemaindataAppend array data = _
  unfold cacheArrayRemaindataAppend
  rw [hmoved]
  show (do
    let size : Int := if remainlen array' < data.length then remainlen array' else data.length
    let array ← ByteCache.put array' (data.take size.toNat)
    return (array, size)) = _
  rw [hsize]
  dsimp only
  rw [hput]
  rfl

/-- What an operation does: what it does to the queue, unless the bytes that it moves overlap. -/
theorem act_spec (h : Represents size array q) {a : Act} (hallowed : Allowed array a) :
    (Apart array a → ∃ array', act array a = .ok (array', answer size q a) ∧
      Represents size array' (enqueue size q a)) ∧
    (¬Apart array a → act array a = .error .undefined) := by
  have hlen := h.length_eq
  have huse := h.uselen_eq
  have hrem := h.remainlen_eq
  have hsptr := h.sptr_le
  cases a with
  | append data =>
    by_cases hmove : remainlen array < data.length ∧ array.useSptr ≠ 0
    · constructor
      · intro hapart
        have hle : q.length ≤ array.useSptr := by
          have hle := hapart hmove.1 hmove.2
          omega
        obtain ⟨array', hfront, hrepr, h0⟩ := h.toFront hle
        exact append_of_room hrepr (Or.inr h0) ((if_pos hmove).trans hfront)
      · intro hover
        have hlt : array.useSptr < q.length := by
          by_contra hle
          exact hover fun _ _ => by omega
        show cacheArrayRemaindataAppend array data = _
        unfold cacheArrayRemaindataAppend
        rw [if_pos hmove, h.toFront_undefined hlt]
        rfl
    · refine ⟨fun _ => append_of_room h ?_ (if_neg hmove), fun hover => ?_⟩
      · by_cases h0 : array.useSptr = 0
        · exact Or.inr h0
        · exact Or.inl (not_lt.mp fun hlt => hmove ⟨hlt, h0⟩)
      · exact absurd (fun hlt h0 => absurd ⟨hlt, h0⟩ hmove) hover
  | add bytes =>
    have hbytes : (bytes.length : Int) ≤ remainlen array := hallowed
    refine ⟨fun _ => ?_, fun hover => absurd trivial hover⟩
    have hfit : array.useEptr + bytes.length ≤ size := by omega
    obtain ⟨array', hput, hrepr⟩ := h.put hfit
    refine ⟨array', ?_, hrepr⟩
    show cacheArrayUselenAdd array bytes = _
    unfold cacheArrayUselenAdd
    rw [hput]
    show Except.ok (array', uselen array') = _
    rw [hrepr.uselen_eq, List.length_append, Int.natCast_add]
    rfl
  | sub len =>
    have hle : (len : Int) ≤ uselen array := hallowed
    refine ⟨fun _ => ⟨cacheArrayUsedlenSub array len, rfl, h.size_eq, ?_, h.eptr_le, ?_⟩,
      fun hover => absurd trivial hover⟩
    · show array.useSptr + len ≤ array.useEptr
      omega
    · show array.data.bytes (array.useSptr + len : Nat) (array.useEptr - (array.useSptr + len)) = q.drop len
      rw [← h.bytes_eq, Mem.drop_bytes, Nat.sub_add_eq, Int.natCast_add]
  | tran =>
    have hanswer {array' : CacheArray} (h : Represents size array' q) (h0 : array'.useSptr = 0) :
        remainlen array' = answer size q .tran := by
      have hrem := h.remainlen_eq
      show remainlen array' = (size : Int) - q.length
      omega
    by_cases h0 : array.useSptr ≠ 0
    · constructor
      · intro hapart
        have hle : q.length ≤ array.useSptr := by
          have hle := hapart h0
          omega
        obtain ⟨array', hfront, hrepr, h0'⟩ := h.toFront hle
        refine ⟨array', ?_, hrepr⟩
        show cacheArrayRemainlenTran array = _
        unfold cacheArrayRemainlenTran
        rw [if_pos h0, hfront, ← hanswer hrepr h0']
        rfl
      · intro hover
        have hlt : array.useSptr < q.length := by
          by_contra hle
          exact hover fun _ => by omega
        show cacheArrayRemainlenTran array = _
        unfold cacheArrayRemainlenTran
        rw [if_pos h0, h.toFront_undefined hlt]
        rfl
    · refine ⟨fun _ => ⟨array, ?_, h⟩, fun hover => absurd (fun hne => absurd hne h0) hover⟩
      show cacheArrayRemainlenTran array = _
      unfold cacheArrayRemainlenTran
      rw [if_neg h0, ← hanswer h (not_not.mp h0)]
      rfl

/-! ## All operations -/

/-- From any buffer that holds a queue. -/
theorem Represents.runs_iff (h : Represents size array q) {acts : List Act}
    (hallowed : Meets step Allowed array acts) :
    Refines size array q acts ↔ Meets step Apart array acts := by
  induction acts generalizing array q with
  | nil =>
    refine ⟨fun _ => trivial, fun _ as bs happ => ?_⟩
    obtain ⟨rfl, rfl⟩ := List.append_eq_nil_iff.mp happ.symm
    exact ⟨array, rfl, h, fun a ha => by cases ha⟩
  | cons a acts ih =>
    obtain ⟨hgood, hbad⟩ := act_spec h hallowed.head
    by_cases hapart : Apart array a
    · obtain ⟨array', hact, hrepr⟩ := hgood hapart
      have hstep : step array a = some array' := by
        unfold step
        rw [hact]
        rfl
      have hrest := ih hrepr (hallowed.tail hstep)
      constructor
      · intro hrefines
        refine ⟨hapart, ?_⟩
        rw [hstep]
        refine hrest.mp fun as bs happ => ?_
        obtain ⟨m, hrun, hm⟩ := hrefines (a :: as) bs (congrArg (a :: ·) happ)
        obtain ⟨m', hm', hrun'⟩ := run_cons_eq_some.mp hrun
        rw [hstep] at hm'
        cases hm'
        exact ⟨m, hrun', hm⟩
      · intro hmeets as bs happ
        cases as with
        | nil =>
          rw [List.nil_append] at happ
          subst happ
          refine ⟨array, rfl, h, fun b hb => ?_⟩
          cases hb
          exact ⟨array', hact⟩
        | cons b as =>
          rw [List.cons_append, List.cons.injEq] at happ
          obtain ⟨rfl, rfl⟩ := happ
          obtain ⟨m, hrun, hm⟩ := hrest.mpr (hmeets.tail hstep) as bs rfl
          exact ⟨m, run_cons_eq_some.mpr ⟨array', hstep, hrun⟩, hm⟩
    · refine ⟨fun hrefines => ?_, fun hmeets => absurd hmeets.head hapart⟩
      obtain ⟨m, hrun, -, hnext⟩ := hrefines [] (a :: acts) rfl
      cases hrun
      obtain ⟨array', hact⟩ := hnext a rfl
      rw [hbad hapart] at hact
      cases hact

/-- The buffer is a bounded queue of bytes exactly as long as the bytes that are moved do not overlap
their new place. -/
theorem refines_iff (data : Mem) (size : Nat) {acts : List Act}
    (hallowed : Meets step Allowed (cacheArrayInit data size) acts) :
    Refines size (cacheArrayInit data size) [] acts ↔ Meets step Apart (cacheArrayInit data size) acts :=
  (represents_init data size).runs_iff hallowed

/-- Four bytes, of which three are taken out before the last one is moved. -/
theorem refines_iff_three :
    Meets step Allowed (cacheArrayInit Mem.zero 4) [.append [1, 2, 3, 4], .sub 3, .tran] ∧
      (Refines 4 (cacheArrayInit Mem.zero 4) [] [.append [1, 2, 3, 4], .sub 3, .tran] ↔
        Meets step Apart (cacheArrayInit Mem.zero 4) [.append [1, 2, 3, 4], .sub 3, .tran]) := by
  have hallowed : Meets step Allowed (cacheArrayInit Mem.zero 4) [.append [1, 2, 3, 4], .sub 3, .tran] := by
    decide +kernel
  exact ⟨hallowed, refines_iff Mem.zero 4 hallowed⟩

/-- When only one has been taken out, the three others are moved over each other. -/
theorem not_refines_one :
    Meets step Allowed (cacheArrayInit Mem.zero 4) [.append [1, 2, 3, 4], .sub 1, .tran] ∧
      ¬Refines 4 (cacheArrayInit Mem.zero 4) [] [.append [1, 2, 3, 4], .sub 1, .tran] := by
  refine ⟨by decide +kernel, fun hrefines => ?_⟩
  obtain ⟨m, hrun, -⟩ := hrefines [.append [1, 2, 3, 4], .sub 1, .tran] [] rfl
  have hnone : (run step (cacheArrayInit Mem.zero 4) [.append [1, 2, 3, 4], .sub 1, .tran]).isSome = false := by
    decide +kernel
  rw [hrun] at hnone
  cases hnone

end ProgrammingPath.ByteCache
