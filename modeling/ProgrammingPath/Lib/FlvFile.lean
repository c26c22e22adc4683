import Mathlib.Algebra.Group.Nat.Defs
import Mathlib.Data.List.Induction

/-!
# FLV files

The container format: a header of nine bytes, and then tags. Before each tag stands the size of the one
before it, zero before the first.
-/

namespace ProgrammingPath.Lib

/-! ## Numbers in network order -/

/-- The low `k` bytes of a number, the highest first. -/
def bigEndian : Nat → Nat → List UInt8
  | 0, _ => []
  | k + 1, n => bigEndian k (n / 256) ++ [UInt8.ofNat n]

def ofBigEndian (bytes : List UInt8) : Nat := bytes.foldl (fun n b => n * 256 + b.toNat) 0

@[simp] theorem length_bigEndian (k n : Nat) : (bigEndian k n).length = k := by
  induction k generalizing n with
  | zero => rfl
  | succ k ih => rw [bigEndian, List.length_append, ih, List.length_singleton]

theorem ofBigEndian_concat (bytes : List UInt8) (b : UInt8) :
    ofBigEndian (bytes ++ [b]) = ofBigEndian bytes * 256 + b.toNat := by
  rw [ofBigEndian, List.foldl_append]
  rfl

theorem ofBigEndian_bigEndian {k n : Nat} (h : n < 256 ^ k) : ofBigEndian (bigEndian k n) = n := by
  induction k generalizing n with
  | zero =>
    have hzero : n = 0 := by omega
    rw [hzero]
    rfl
  | succ k ih =>
    have hlow : (UInt8.ofNat n).toNat = n % 256 := rfl
    rw [bigEndian, ofBigEndian_concat, ih (Nat.div_lt_of_lt_mul (by rwa [Nat.mul_comm, ← Nat.pow_succ])),
      hlow, Nat.div_add_mod']

theorem ofBigEndian_lt (bytes : List UInt8) : ofBigEndian bytes < 256 ^ bytes.length := by
  induction bytes using List.reverseRecOn with
  | nil => exact Nat.one_pos
  | append_singleton bytes b ih =>
    have hb : b.toNat < 256 := b.toNat_lt
    rw [ofBigEndian_concat, List.length_append, List.length_singleton, Nat.pow_succ]
    calc ofBigEndian bytes * 256 + b.toNat < (ofBigEndian bytes + 1) * 256 := by omega
      _ ≤ 256 ^ bytes.length * 256 := Nat.mul_le_mul_right 256 ih

/-! ## The format -/

/-- A tag: its length and its time stamp fit into their fields. -/
structure FlvTag where
  type : UInt8
  timestamp : Nat
  body : List UInt8
  timestamp_lt : timestamp < 256 ^ 4
  body_lt : body.length < 256 ^ 3

/-- The header of a tag. The highest byte of the time stamp stands behind the others. -/
def FlvTag.header (t : FlvTag) : List UInt8 :=
  t.type :: (bigEndian 3 t.body.length ++ (bigEndian 3 t.timestamp ++
    [UInt8.ofNat (t.timestamp / 256 ^ 3), 0, 0, 0]))

/-- The size of a tag, as it stands before the next one. -/
def FlvTag.size (t : FlvTag) : Nat := 11 + t.body.length

/-- The tags behind one of size `previous`. -/
def tagChain : Nat → List FlvTag → List UInt8
  | _, [] => []
  | previous, t :: ts => bigEndian 4 previous ++ (t.header ++ (t.body ++ tagChain t.size ts))

/-- The header of a file, with the flags for audio and video. -/
def flvHead (flags : UInt8) : List UInt8 := [0x46, 0x4C, 0x56, 1, flags] ++ bigEndian 4 9

def flvFile (flags : UInt8) (tags : List FlvTag) : List UInt8 := flvHead flags ++ tagChain 0 tags

/-- The size of the last tag. -/
def lastSize : Nat → List FlvTag → Nat
  | previous, [] => previous
  | _, t :: ts => lastSize t.size ts

theorem lastSize_concat (previous : Nat) (tags : List FlvTag) (t : FlvTag) :
    lastSize previous (tags ++ [t]) = t.size := by
  induction tags generalizing previous with
  | nil => rfl
  | cons u us ih => exact ih u.size

/-- One tag more. -/
theorem tagChain_concat (previous : Nat) (tags : List FlvTag) (t : FlvTag) :
    tagChain previous (tags ++ [t]) =
      tagChain previous tags ++ (bigEndian 4 (lastSize previous tags) ++ (t.header ++ t.body)) := by
  induction tags generalizing previous with
  | nil => simp [tagChain, lastSize]
  | cons u us ih =>
    rw [List.cons_append, tagChain, tagChain, ih, lastSize]
    simp only [List.append_assoc]

/-! ## Reading -/

/-- The tag at the front, behind one of size `previous`, and what follows it. -/
def readTag (previous : Nat) : List UInt8 → Option (FlvTag × List UInt8)
  | p3 :: p2 :: p1 :: p0 :: type :: n2 :: n1 :: n0 :: t2 :: t1 :: t0 :: t3 :: i2 :: i1 :: i0 :: rest =>
    let size := ofBigEndian [n2, n1, n0]
    if ofBigEndian [p3, p2, p1, p0] = previous ∧ [i2, i1, i0] = [0, 0, 0] ∧ size ≤ rest.length then
      some (⟨type, ofBigEndian [t3, t2, t1, t0], rest.take size, ofBigEndian_lt [t3, t2, t1, t0],
        Nat.lt_of_le_of_lt (List.length_take_le _ _) (ofBigEndian_lt [n2, n1, n0])⟩, rest.drop size)
    else none
  | _ => none

/-- The tags in so many turns; each takes at least one byte. -/
def readTags : Nat → Nat → List UInt8 → Option (List FlvTag)
  | 0, _, bytes => if bytes.isEmpty then some [] else none
  | turns + 1, previous, bytes =>
    if bytes.isEmpty then some []
    else (readTag previous bytes).bind fun r => (readTags turns r.1.size r.2).map (r.1 :: ·)

/-- Read a file: the flags and the tags. -/
def readFlv (bytes : List UInt8) : Option (UInt8 × List FlvTag) :=
  let flags := bytes.getD 4 0
  if bytes.take 9 = flvHead flags then
    (readTags (bytes.length - 9) 0 (bytes.drop 9)).map fun tags => (flags, tags)
  else none

theorem readTag_append (t : FlvTag) {previous : Nat} (hprevious : previous < 256 ^ 4)
    (rest : List UInt8) :
    readTag previous (bigEndian 4 previous ++ (t.header ++ (t.body ++ rest))) = some (t, rest) := by
  obtain ⟨type, timestamp, body, htimestamp, hbody⟩ := t
  have hprev := ofBigEndian_bigEndian hprevious
  have hsize := ofBigEndian_bigEndian hbody
  have htime := ofBigEndian_bigEndian htimestamp
  obtain ⟨p3, p2, p1, p0, hp⟩ : ∃ a b c d, bigEndian 4 previous = [a, b, c, d] := ⟨_, _, _, _, rfl⟩
  obtain ⟨n2, n1, n0, hn⟩ : ∃ a b c, bigEndian 3 body.length = [a, b, c] := ⟨_, _, _, rfl⟩
  obtain ⟨t2, t1, t0, ht⟩ : ∃ a b c, bigEndian 3 timestamp = [a, b, c] := ⟨_, _, _, rfl⟩
  have hhigh : bigEndian 4 timestamp = UInt8.ofNat (timestamp / 256 ^ 3) :: bigEndian 3 timestamp := by
    have hdiv : timestamp / 256 ^ 3 = timestamp / 256 / 256 / 256 := by omega
    rw [hdiv]
    rfl
  rw [hp] at hprev
  rw [hn] at hsize
  rw [hhigh, ht] at htime
  simp only [FlvTag.header, hp, hn, ht, List.cons_append, List.nil_append, readTag]
  simp only [hprev, hsize, htime, List.length_append, Nat.le_add_right, and_self, if_true,
    List.take_left, List.drop_left]

theorem readTags_chain (tags : List FlvTag) {previous : Nat} (hprevious : previous < 256 ^ 4)
    {turns : Nat} (hturns : (tagChain previous tags).length ≤ turns) :
    readTags turns previous (tagChain previous tags) = some tags := by
  induction tags generalizing previous turns with
  | nil =>
    cases turns with
    | zero => rfl
    | succ turns => rfl
  | cons t ts ih =>
    rw [tagChain] at hturns ⊢
    simp only [List.length_append, length_bigEndian] at hturns
    obtain ⟨turns, rfl⟩ := Nat.exists_eq_add_of_le' (show 1 ≤ turns by omega)
    have hsize : t.size < 256 ^ 4 := by
      have hbody := t.body_lt
      rw [FlvTag.size]
      omega
    have hrest : readTags turns t.size (tagChain t.size ts) = some ts := ih hsize (by omega)
    rw [readTags, readTag_append t hprevious, Option.bind_some, hrest]
    rfl

/-- **What is written is read again.** -/
theorem readFlv_flvFile (flags : UInt8) (tags : List FlvTag) :
    readFlv (flvFile flags tags) = some (flags, tags) := by
  have hzero : 0 < 256 ^ 4 := by decide
  have htake : (flvFile flags tags).take 9 = flvHead flags := rfl
  have hdrop : (flvFile flags tags).drop 9 = tagChain 0 tags := rfl
  have hflags : (flvFile flags tags).getD 4 0 = flags := rfl
  rw [readFlv, hflags, if_pos htake, hdrop, ← List.length_drop, hdrop,
    readTags_chain tags hzero (Nat.le_refl _)]
  rfl

end ProgrammingPath.Lib
