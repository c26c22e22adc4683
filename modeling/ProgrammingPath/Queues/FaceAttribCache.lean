import Mathlib.Algebra.Group.Nat.Defs
import Mathlib.Data.List.Induction
import ProgrammingPath.Lib.Run
import ProgrammingPath.Queues.ListQueueCir

/-!
# `FaceAttribCache`

A ring of ten slots for the latest faces, one of them always empty. A slot keeps the allocation of an earlier image when
that is large enough. `Holds` says what is in the ring after some faces were added, and `faceAttribCache_foreach` what
`FaceAttribCache_Foreach` visits then.
-/

namespace ProgrammingPath.FaceAttribCache

open ProgrammingPath.Lib
open ListQueueCir (copyInto)

variable {δ : Type}

/-! ## The cache -/

/-- `FaceImageCache`, with the bytes that are allocated at `jdata`. `δ` is `FACE_DETECT_PIC_DATA_S`. -/
structure FaceImageCache (δ : Type) where
  chID : Int
  jdata : Option (List UInt8)
  jsize : Nat
  dataSize : Nat
  jid : UInt64
  picData : δ

/-- `_FaceAttribCache` and `JPGUUID`. -/
structure Cache (δ : Type) where
  front : Nat
  rear : Nat
  picAttrib : Nat → FaceImageCache δ
  jpgUUID : UInt64

/-- The static variables at the start. -/
def Cache.init (zero : δ) : Cache δ := ⟨0, 0, fun _ => ⟨0, none, 0, 0, 0, zero⟩, 0⟩

/-- The arguments of `FaceAttribCache_Add`, with the bytes of the image, and what `malloc` leaves in a new block. -/
structure Face (δ : Type) where
  chID : Int
  data : δ
  jdata : List UInt8
  fill : UInt8

/-- The slot after a face was put into it; `none` when the image does not fit. -/
def FaceImageCache.store (slot : FaceImageCache δ) (f : Face δ) (jid : UInt64) : Option (FaceImageCache δ) :=
  let block :=
    if f.jdata.length > slot.dataSize then List.replicate f.jdata.length f.fill else slot.jdata.getD []
  let dataSize := if f.jdata.length > slot.dataSize then f.jdata.length else slot.dataSize
  (copyInto block f.jdata).map fun block => ⟨f.chID, some block, f.jdata.length, dataSize, jid, f.data⟩

/-- `FaceAttribCache_Add`. -/
def faceAttribCacheAdd (s : Cache δ) (f : Face δ) : Option (Cache δ) :=
  let front := if (s.rear + 1) % 10 = s.front then (s.front + 1) % 10 else s.front
  ((s.picAttrib s.rear).store f s.jpgUUID).map fun slot =>
    ⟨front, (s.rear + 1) % 10, Function.update s.picAttrib s.rear slot, s.jpgUUID + 1⟩

/-- The loop of `FaceAttribCache_Foreach`, from `i` down. -/
def visit (s : Cache δ) : Nat → List (FaceImageCache δ)
  | 0 => []
  | i + 1 => s.picAttrib ((s.front + (i + 1) - 1) % 10) :: visit s i

/-- `FaceAttribCache_Foreach`: the slots that the function is called for. -/
def faceAttribCacheForeach (s : Cache δ) : List (FaceImageCache δ) := visit s ((s.rear + 10 - s.front) % 10)

/-! ## What was added -/

/-- What is seen of a slot: the channel, the attributes, the image with its size, and the number. -/
structure Shown (δ : Type) where
  chID : Int
  picData : δ
  image : List UInt8
  jsize : Nat
  jid : UInt64

def FaceImageCache.shown (slot : FaceImageCache δ) : Shown δ :=
  ⟨slot.chID, slot.picData, (slot.jdata.getD []).take slot.jsize, slot.jsize, slot.jid⟩

/-- A face as the one that was added at this place. -/
def Face.shown (f : Face δ) (no : Nat) : Shown δ := ⟨f.chID, f.data, f.jdata, f.jdata.length, UInt64.ofNat no⟩

/-- The faces as they were added. -/
def entries (faces : List (Face δ)) : List (Shown δ) := faces.zipIdx.map fun f => f.1.shown f.2

variable {s s' : Cache δ} {f : Face δ} {faces : List (Face δ)} {slot slot' : FaceImageCache δ} {jid : UInt64}

@[simp] theorem length_entries : (entries faces).length = faces.length := by
  rw [entries, List.length_map, List.length_zipIdx]

theorem entries_concat : entries (faces ++ [f]) = entries faces ++ [f.shown faces.length] := by
  rw [entries, List.zipIdx_append, List.map_append, Nat.zero_add]
  rfl

/-! ## A slot -/

/-- A slot knows the size of its allocation. -/
def FaceImageCache.Allocated (slot : FaceImageCache δ) : Prop := (slot.jdata.getD []).length = slot.dataSize

/-- Every image fits, and is what the slot shows afterwards. -/
theorem FaceImageCache.Allocated.store (h : slot.Allocated) (f : Face δ) (no : Nat) :
    ∃ slot', slot.store f (UInt64.ofNat no) = some slot' ∧ slot'.Allocated ∧ slot'.shown = f.shown no := by
  have hstored (block : List UInt8) (dataSize : Nat) (hblock : block.length = dataSize)
      (hfits : f.jdata.length ≤ dataSize) :
      ∃ slot', (copyInto block f.jdata).map
          (fun block => (⟨f.chID, some block, f.jdata.length, dataSize, UInt64.ofNat no, f.data⟩ :
            FaceImageCache δ)) = some slot' ∧
        slot'.Allocated ∧ slot'.shown = f.shown no := by
    rw [copyInto, if_pos (by omega), Option.map_some]
    refine ⟨_, rfl, ?_, ?_⟩
    · show (f.jdata ++ block.drop f.jdata.length).length = dataSize
      rw [List.length_append, List.length_drop]
      omega
    · show (⟨f.chID, f.data, (f.jdata ++ block.drop f.jdata.length).take f.jdata.length, f.jdata.length,
        UInt64.ofNat no⟩ : Shown δ) = f.shown no
      rw [List.take_left]
      rfl
  rw [FaceImageCache.store]
  by_cases hlarge : f.jdata.length > slot.dataSize
  · rw [if_pos hlarge, if_pos hlarge]
    exact hstored _ _ List.length_replicate (Nat.le_refl _)
  · rw [if_neg hlarge, if_neg hlarge]
    exact hstored _ _ h (Nat.le_of_not_lt hlarge)

/-! ## The ring -/

/-- The slots that are visited, the oldest one first. -/
def Cache.held (s : Cache δ) (len : Nat) : List (Shown δ) :=
  (RingBuffer.contents s.picAttrib 10 s.front len).map FaceImageCache.shown

/-- After these faces were added the ring has the last nine of them. -/
structure Holds (s : Cache δ) (faces : List (Face δ)) : Prop where
  front_lt : s.front < 10
  rear_eq : s.rear = (s.front + min faces.length 9) % 10
  held : s.held (min faces.length 9) = (entries faces).drop (faces.length - 9)
  jpgUUID : s.jpgUUID = UInt64.ofNat faces.length
  allocated : ∀ i, (s.picAttrib i).Allocated

theorem holds_init (zero : δ) : Holds (Cache.init zero) [] where
  front_lt := Nat.succ_pos 9
  rear_eq := rfl
  held := rfl
  jpgUUID := rfl
  allocated _ := rfl

/-- A full ring gives up its oldest face, so that there is room for one more. -/
theorem Holds.makeRoom (h : Holds s faces) :
    ∃ front len, (if (s.rear + 1) % 10 = s.front then (s.front + 1) % 10 else s.front) = front ∧
      front < 10 ∧ len < 9 ∧ len + 1 = min (faces.length + 1) 9 ∧ s.rear = (front + len) % 10 ∧
      (RingBuffer.contents s.picAttrib 10 front len).map FaceImageCache.shown =
        (entries faces).drop (faces.length + 1 - 9) := by
  have hfront := h.front_lt
  have hrear := h.rear_eq
  have hheld := h.held
  by_cases hfull : 9 ≤ faces.length
  · refine ⟨(s.front + 1) % 10, 8, if_pos ?_, ?_, ?_, ?_, ?_, ?_⟩
    · omega
    · omega
    · omega
    · omega
    · omega
    · rw [show min faces.length 9 = 8 + 1 by omega, Cache.held, RingBuffer.contents_succ, List.map_cons] at hheld
      rw [show faces.length + 1 - 9 = faces.length - 9 + 1 by omega, ← List.drop_drop, ← hheld]
      rfl
  · refine ⟨s.front, faces.length, if_neg ?_, hfront, ?_, ?_, ?_, ?_⟩
    · omega
    · omega
    · omega
    · omega
    · rw [show min faces.length 9 = faces.length by omega, Cache.held] at hheld
      rw [hheld, show faces.length - 9 = 0 by omega, show faces.length + 1 - 9 = 0 by omega]

/-- What one call keeps. -/
theorem Holds.add (h : Holds s faces) (f : Face δ) :
    ∃ s', faceAttribCacheAdd s f = some s' ∧ Holds s' (faces ++ [f]) := by
  obtain ⟨front, len, hfront, hlt, hlen, hmin, hrear, hheld⟩ := h.makeRoom
  obtain ⟨slot, hstore, hallocated, hshown⟩ := (h.allocated s.rear).store f faces.length
  rw [faceAttribCacheAdd, h.jpgUUID, hstore]
  refine ⟨_, rfl, ?_, ?_, ?_, ?_, ?_⟩
  · dsimp only
    rw [hfront]
    exact hlt
  · dsimp only
    rw [hfront, List.length_append, List.length_singleton, ← hmin]
    omega
  · show (RingBuffer.contents (Function.update s.picAttrib s.rear slot) 10 _ _).map _ = _
    rw [hfront, List.length_append, List.length_singleton, ← hmin, hrear, RingBuffer.contents_update (by omega),
      List.map_append, hheld, List.map_singleton, hshown, entries_concat,
      List.drop_append_of_le_length (by rw [length_entries]; omega)]
  · show UInt64.ofNat faces.length + 1 = _
    rw [List.length_append, List.length_singleton, UInt64.ofNat_add]
    rfl
  · intro i
    by_cases hi : i = s.rear
    · subst hi
      simpa only [Function.update_self] using hallocated
    · simpa only [Function.update_of_ne hi] using h.allocated i

/-- What any number of calls make. -/
theorem run_holds (zero : δ) (faces : List (Face δ)) :
    ∃ s, run faceAttribCacheAdd (Cache.init zero) faces = some s ∧ Holds s faces := by
  induction faces using List.reverseRecOn with
  | nil => exact ⟨_, rfl, holds_init zero⟩
  | append_singleton faces f ih =>
    obtain ⟨s, hrun, hs⟩ := ih
    obtain ⟨s', hadd, hs'⟩ := hs.add f
    exact ⟨s', run_append_eq_some.mpr ⟨s, hrun, by rw [run_cons, hadd]; rfl⟩, hs'⟩

/-! ## What is visited -/

theorem visit_eq (s : Cache δ) (i : Nat) : visit s i = (RingBuffer.contents s.picAttrib 10 s.front i).reverse := by
  induction i with
  | zero => rfl
  | succ i ih =>
    rw [visit, RingBuffer.contents_concat, List.reverse_append, ih]
    rfl

/-- The last nine faces, the newest one first. -/
theorem Holds.foreach (h : Holds s faces) :
    (faceAttribCacheForeach s).map FaceImageCache.shown = (entries faces).reverse.take 9 := by
  have hfront := h.front_lt
  have hrear := h.rear_eq
  have hheld := h.held
  rw [Cache.held] at hheld
  rw [faceAttribCacheForeach, show (s.rear + 10 - s.front) % 10 = min faces.length 9 by omega, visit_eq,
    List.map_reverse, hheld, List.take_reverse, length_entries]

theorem jids_entries (faces : List (Face δ)) :
    (entries faces).map Shown.jid = (List.range' 0 faces.length).map UInt64.ofNat := by
  induction faces using List.reverseRecOn with
  | nil => rfl
  | append_singleton faces f ih =>
    rw [entries_concat, List.map_append, ih, List.length_append, List.length_singleton, List.range'_concat,
      List.map_append, Nat.zero_add, Nat.one_mul]
    rfl

/-- Consecutive numbers of 64 bits increase unless they wrap around. -/
theorem pairwise_ofNat_iff {start n : Nat} (hn : n ≤ 9) (hstart : 0 < n ∨ start = 0) :
    (List.range' start n).Pairwise (fun i j => UInt64.ofNat i < UInt64.ofNat j) ↔
      start / 2 ^ 64 = (start + n - 1) / 2 ^ 64 := by
  simp only [UInt64.lt_iff_toNat_lt, UInt64.toNat_ofNat', List.pairwise_iff_getElem, List.length_range',
    List.getElem_range', Nat.one_mul]
  constructor
  · intro h
    by_cases hone : n ≤ 1
    · omega
    · have hends := h 0 (n - 1) (by omega) (by omega) (by omega)
      omega
  · intro hsame i j hi hj hij
    omega

/-- The numbers of the visited slots decrease unless the counter wrapped around between them. -/
theorem Holds.jids (h : Holds s faces) :
    ((faceAttribCacheForeach s).map FaceImageCache.jid).Pairwise (· > ·) ↔
      (faces.length - 9) / 2 ^ 64 = (faces.length - 1) / 2 ^ 64 := by
  have hjids : (faceAttribCacheForeach s).map FaceImageCache.jid =
      ((List.range' (faces.length - 9) (min faces.length 9)).map UInt64.ofNat).reverse := by
    calc (faceAttribCacheForeach s).map FaceImageCache.jid
        = ((faceAttribCacheForeach s).map FaceImageCache.shown).map Shown.jid := by
          rw [List.map_map]
          rfl
      _ = (((List.range' 0 faces.length).drop (faces.length - 9)).map UInt64.ofNat).reverse := by
          rw [h.foreach, List.take_reverse, length_entries, List.map_reverse, List.map_drop, jids_entries,
            List.map_drop]
      _ = ((List.range' (faces.length - 9) (min faces.length 9)).map UInt64.ofNat).reverse := by
          rw [List.drop_range', Nat.zero_add, Nat.mul_one,
            show faces.length - (faces.length - 9) = min faces.length 9 by omega]
  rw [hjids, List.pairwise_reverse, List.pairwise_map]
  refine (pairwise_ofNat_iff (Nat.min_le_right _ _) (by omega)).trans ?_
  rw [show faces.length - 9 + min faces.length 9 - 1 = faces.length - 1 by omega]

/-- Any sequence of calls succeeds, the last nine faces are visited, the newest one first, and their numbers decrease
unless the counter wrapped around between them. -/
theorem faceAttribCache_foreach (zero : δ) (faces : List (Face δ)) :
    ∃ s, run faceAttribCacheAdd (Cache.init zero) faces = some s ∧
      (faceAttribCacheForeach s).map FaceImageCache.shown = (entries faces).reverse.take 9 ∧
      (((faceAttribCacheForeach s).map FaceImageCache.jid).Pairwise (· > ·) ↔
        (faces.length - 9) / 2 ^ 64 = (faces.length - 1) / 2 ^ 64) := by
  obtain ⟨s, hrun, hs⟩ := run_holds zero faces
  exact ⟨s, hrun, hs.foreach, hs.jids⟩

/-- One face more than the counter has numbers. -/
theorem jids_wrapped :
    ∃ s, run faceAttribCacheAdd (Cache.init ()) (List.replicate (2 ^ 64 + 1) ⟨1, (), [255, 216], 0⟩) = some s ∧
      ¬((faceAttribCacheForeach s).map FaceImageCache.jid).Pairwise (· > ·) := by
  obtain ⟨s, hrun, hs⟩ := run_holds () (List.replicate (2 ^ 64 + 1) (⟨1, (), [255, 216], 0⟩ : Face Unit))
  refine ⟨s, hrun, fun hdecrease => ?_⟩
  have hsame := hs.jids.mp hdecrease
  rw [List.length_replicate] at hsame
  exact absurd hsame (by decide)

end ProgrammingPath.FaceAttribCache
