import ProgrammingPath.Rtmp.Nalu

/-!
# Splitting a buffer for FLV

`H264_NALFindPos` and the loop that `flv_out_video_h264` and `flv_out_video_h265` have in common. The
loop moves its pointer over what stands before the first start code, but does not take it off the
length, so it can read behind the buffer; in a buffer of NAL units that begins with a start code it
comes to each of them once.
-/

namespace ProgrammingPath.Flv

open ProgrammingPath.Lib ProgrammingPath.Rtmp

/-! ## The splitter -/

/-- The memory from a pointer on. -/
abbrev Mem := Nat → UInt8

/-- The length of the start code at `pos`, as the two tests in the loops find it. -/
def codeAt (data : Mem) (size pos : Nat) : Option Nat :=
  if pos + 4 < size ∧ data pos = 0 ∧ data (pos + 1) = 0 ∧ data (pos + 2) = 0 ∧ data (pos + 3) = 1 then
    some 4
  else if pos + 3 < size ∧ data pos = 0 ∧ data (pos + 1) = 0 ∧ data (pos + 2) = 1 then some 3
  else none

/-- Where a loop from `pos` with so many turns stops: at a start code, or behind its last turn. -/
def codePos (data : Mem) (size : Nat) : Nat → Nat → Nat
  | 0, pos => pos
  | turns + 1, pos =>
    if (codeAt data size pos).isSome then pos else codePos data size turns (pos + 1)

/-- What `H264_NALFindPos` returns, and its two results. -/
structure NalPos where
  split : Nat
  head : Nat
  len : Nat
  deriving DecidableEq, Repr

/-- `H264_NALFindPos(data, size, &nal_head, &nal_len)`. -/
def nalFindPos (data : Mem) (size : Nat) : Option NalPos :=
  let split := codePos data size (size - 3) 0
  (codeAt data size split).map fun code =>
    ⟨split, split + code, codePos data size (size - (split + code)) (split + code) - (split + code)⟩

/-- A unit in memory: the byte that gives its type, and its bytes. -/
structure NalRef where
  head : UInt8
  bytes : List UInt8
  deriving DecidableEq, Repr

def nalAt (ptr : Mem) (p : NalPos) : NalRef :=
  ⟨ptr p.head, (List.range p.len).map fun i => ptr (p.head + i)⟩

/-- The loop over the units. A turn takes at least three bytes off the length, so `fuel` bytes are turns
enough (`nalLoop_fuel`). -/
def nalLoop {σ : Type} (step : σ → NalRef → Option σ) : Nat → σ → Mem → Nat → Option σ
  | 0, s, _, _ => some s
  | fuel + 1, s, ptr, len =>
    match nalFindPos ptr len with
    | none => some s
    | some p =>
      (step s (nalAt ptr p)).bind fun s =>
        nalLoop step fuel s (fun i => ptr (p.head + p.len + i)) (len - (p.len + (p.head - p.split)))

/-- The units that the loop comes to. -/
def nals : Nat → Mem → Nat → List NalRef
  | 0, _, _ => []
  | fuel + 1, ptr, len =>
    match nalFindPos ptr len with
    | none => []
    | some p =>
      nalAt ptr p :: nals fuel (fun i => ptr (p.head + p.len + i)) (len - (p.len + (p.head - p.split)))

theorem nalLoop_eq {σ : Type} (step : σ → NalRef → Option σ) (fuel : Nat) (s : σ) (ptr : Mem)
    (len : Nat) : nalLoop step fuel s ptr len = (nals fuel ptr len).foldlM step s := by
  induction fuel generalizing s ptr len with
  | zero => rfl
  | succ fuel ih =>
    rw [nalLoop, nals]
    cases nalFindPos ptr len with
    | none => rfl
    | some p =>
      rw [List.foldlM_cons]
      show (step s (nalAt ptr p)).bind _ = (step s (nalAt ptr p)).bind _
      exact congrArg _ (funext fun s => ih s _ _)

theorem codeAt_eq_some {data : Mem} {size pos code : Nat} (h : codeAt data size pos = some code) :
    3 ≤ code ∧ pos + code < size := by
  rw [codeAt] at h
  split at h
  · next hlong =>
    cases h
    exact ⟨by decide, hlong.1⟩
  · split at h
    · next hshort =>
      cases h
      exact ⟨by decide, hshort.1⟩
    · cases h

/-- The loop has come to its end when the bytes are used up. -/
theorem nals_fuel {fuel len : Nat} (hfuel : len ≤ fuel) (ptr : Mem) :
    nals (fuel + 1) ptr len = nals fuel ptr len := by
  induction fuel generalizing ptr len with
  | zero =>
    have hlen : len = 0 := Nat.le_zero.mp hfuel
    subst hlen
    have hnone : nalFindPos ptr 0 = none := by
      rw [nalFindPos, Option.map_eq_none_iff, codeAt, if_neg (by omega), if_neg (by omega)]
    rw [nals.eq_def]
    simp only [hnone, nals]
  | succ fuel ih =>
    rw [nals, nals]
    cases hfind : nalFindPos ptr len with
    | none => rfl
    | some p =>
      obtain ⟨code, hcode, rfl⟩ := Option.map_eq_some_iff.mp hfind
      have hthree := codeAt_eq_some hcode
      dsimp only
      rw [ih (by omega)]

theorem nalLoop_fuel {σ : Type} (step : σ → NalRef → Option σ) {fuel len : Nat} (hfuel : len ≤ fuel)
    (s : σ) (ptr : Mem) : nalLoop step (fuel + 1) s ptr len = nalLoop step fuel s ptr len := by
  rw [nalLoop_eq, nalLoop_eq, nals_fuel hfuel]

/-! ## In a buffer of NAL units -/

/-- A buffer, and what the memory has behind it. -/
def memOf (bytes : List UInt8) (behind : Mem) : Mem := fun i => bytes.getD i (behind (i - bytes.length))

/-- The length of the start code at the front, with at least one byte behind it. -/
def codeLen : List UInt8 → Option Nat
  | 0 :: 0 :: 0 :: 1 :: _ :: _ => some 4
  | 0 :: 0 :: 1 :: _ :: _ => some 3
  | _ => none

/-- The number of bytes before the first start code. -/
def scan : List UInt8 → Nat
  | [] => 0
  | b :: rest => if (codeLen (b :: rest)).isSome then 0 else scan rest + 1

theorem memOf_drop (bytes : List UInt8) (behind : Mem) {n : Nat} (h : n ≤ bytes.length) :
    (fun i => memOf bytes behind (n + i)) = memOf (bytes.drop n) behind := by
  funext i
  rw [memOf, memOf, List.getD_eq_getElem?_getD, List.getD_eq_getElem?_getD, List.getElem?_drop,
    List.length_drop]
  congr 2
  omega

theorem memOf_zero (b : UInt8) (rest : List UInt8) (behind : Mem) : memOf (b :: rest) behind 0 = b := rfl

theorem codeAt_zero (bytes : List UInt8) (behind : Mem) :
    codeAt (memOf bytes behind) bytes.length 0 = codeLen bytes := by
  rcases bytes with _ | ⟨a, _ | ⟨b, _ | ⟨c, _ | ⟨d, _ | ⟨e, rest⟩⟩⟩⟩⟩
  · rfl
  · simp [codeAt, codeLen]
  · simp [codeAt, codeLen]
  · simp [codeAt, codeLen]
  · rw [codeLen.eq_def]
    simp [codeAt, memOf]
    grind
  · rw [codeLen.eq_def]
    simp [codeAt, memOf]
    grind

/-- In a buffer the two tests look at the bytes from `pos` on. -/
theorem codeAt_memOf (bytes : List UInt8) (behind : Mem) {pos : Nat} (hpos : pos ≤ bytes.length) :
    codeAt (memOf bytes behind) bytes.length pos = codeLen (bytes.drop pos) := by
  have hmem : ∀ i, memOf bytes behind (pos + i) = memOf (bytes.drop pos) behind i :=
    congrFun (memOf_drop bytes behind hpos)
  rw [← codeAt_zero (bytes.drop pos) behind, codeAt, codeAt, List.length_drop]
  simp only [← hmem, Nat.zero_add, Nat.add_zero, Nat.lt_sub_iff_add_lt']

/-- A loop stops at the first start code, or behind its last turn. -/
theorem codePos_memOf (bytes : List UInt8) (behind : Mem) (turns pos : Nat)
    (h : pos + turns ≤ bytes.length) :
    codePos (memOf bytes behind) bytes.length turns pos = pos + min turns (scan (bytes.drop pos)) := by
  induction turns generalizing pos with
  | zero =>
    rw [codePos, Nat.zero_min]
    rfl
  | succ turns ih =>
    obtain ⟨b, rest, hdrop⟩ : ∃ b rest, bytes.drop pos = b :: rest :=
      List.exists_cons_of_ne_nil (by rw [ne_eq, List.drop_eq_nil_iff]; omega)
    have hrest : bytes.drop (pos + 1) = rest := by
      rw [← List.drop_drop, hdrop]
      rfl
    rw [codePos, codeAt_memOf bytes behind (by omega), hdrop, scan]
    split
    · rw [Nat.min_zero]
      rfl
    · rw [ih (pos + 1) (by omega), hrest]
      omega

theorem scan_le (bytes : List UInt8) : scan bytes ≤ bytes.length := by
  induction bytes with
  | nil => exact Nat.le_refl 0
  | cons b rest ih =>
    rw [scan]
    split
    · exact Nat.zero_le _
    · exact Nat.succ_le_succ ih

theorem nalFindPos_some {bytes : List UInt8} {code : Nat} (behind : Mem)
    (hcode : codeLen (bytes.drop (scan bytes)) = some code) :
    nalFindPos (memOf bytes behind) bytes.length =
      some ⟨scan bytes, scan bytes + code, scan (bytes.drop (scan bytes + code))⟩ := by
  have hat : codeAt (memOf bytes behind) bytes.length (scan bytes) = some code := by
    rw [codeAt_memOf bytes behind (scan_le bytes), hcode]
  obtain ⟨hthree, hlt⟩ := codeAt_eq_some hat
  have hsplit : codePos (memOf bytes behind) bytes.length (bytes.length - 3) 0 = scan bytes := by
    rw [codePos_memOf bytes behind _ 0 (by omega), List.drop_zero]
    omega
  have hend := scan_le (bytes.drop (scan bytes + code))
  rw [List.length_drop] at hend
  simp only [nalFindPos, hsplit, hat, Option.map_some]
  rw [codePos_memOf bytes behind _ _ (by omega), Nat.min_eq_right hend, Nat.add_sub_cancel_left]

theorem nalFindPos_none {bytes : List UInt8} (behind : Mem) (hscan : scan bytes = bytes.length) :
    nalFindPos (memOf bytes behind) bytes.length = none := by
  rw [nalFindPos, Option.map_eq_none_iff, codePos_memOf bytes behind _ 0 (by omega), List.drop_zero,
    hscan, codeAt, if_neg (by omega), if_neg (by omega)]

theorem nalAt_memOf (bytes : List UInt8) (behind : Mem) {p : NalPos} (h : p.head + p.len ≤ bytes.length) :
    (nalAt (memOf bytes behind) p).bytes = (bytes.drop p.head).take p.len := by
  apply List.ext_getElem
  · rw [nalAt, List.length_map, List.length_range, List.length_take, List.length_drop]
    omega
  · intro i hi hi'
    rw [nalAt, List.length_map, List.length_range] at hi
    have hlt : p.head + i < bytes.length := by omega
    simp [nalAt, memOf, List.getD_eq_getElem?_getD, hlt]

theorem prefix_of_codeLen {bytes : List UInt8} (h : codeLen bytes ≠ none) :
    [0, 0, 1] <+: bytes ∨ [0, 0, 0, 1] <+: bytes := by
  rw [codeLen.eq_def] at h
  split at h
  · exact .inr ⟨_, rfl⟩
  · exact .inl ⟨_, rfl⟩
  · exact absurd rfl h

/-- No start code begins in bytes that have none and end in one that is not zero. -/
theorem codeLen_append {w : List UInt8} (hne : w ≠ []) (hlast : ∀ b ∈ w.getLast?, b ≠ 0)
    (hcode : ¬[0, 0, 1] <:+: w) (tail : List UInt8) : codeLen (w ++ tail) = none := by
  by_contra hsome
  -- a code that ends in `w` is in it, and of one that ends later `w` has only zeros
  have hcut : ∀ code : List UInt8, code <+: w ++ tail → [0, 0, 1] <:+: code →
      (∀ k < code.length, k ≠ 0 → (code.take k).getLast? = some 0) → False := by
    intro code hpre hin hzeros
    by_cases hlen : code.length ≤ w.length
    · exact hcode (hin.trans (List.prefix_of_prefix_length_le hpre (List.prefix_append w tail)
        hlen).isInfix)
    · have hw : w <+: code := List.prefix_of_prefix_length_le (List.prefix_append w tail) hpre (by omega)
      have hpos : w.length ≠ 0 := fun hzero => hne (List.length_eq_zero_iff.mp hzero)
      have htake := hzeros w.length (by omega) hpos
      rw [← List.prefix_iff_eq_take.mp hw] at htake
      exact hlast 0 htake rfl
  rcases prefix_of_codeLen hsome with hpre | hpre
  · refine hcut _ hpre (List.infix_refl _) fun k hk hpos => ?_
    obtain rfl | rfl : k = 1 ∨ k = 2 := by
      rw [List.length_cons, List.length_cons, List.length_cons, List.length_nil] at hk
      omega
    · rfl
    · rfl
  · refine hcut _ hpre ⟨[0], [], rfl⟩ fun k hk hpos => ?_
    obtain rfl | rfl | rfl : k = 1 ∨ k = 2 ∨ k = 3 := by
      rw [List.length_cons, List.length_cons, List.length_cons, List.length_cons, List.length_nil] at hk
      omega
    · rfl
    · rfl
    · rfl

theorem scan_append {w : List UInt8} (hlast : ∀ b ∈ w.getLast?, b ≠ 0) (hcode : ¬[0, 0, 1] <:+: w)
    (tail : List UInt8) : scan (w ++ tail) = w.length + scan tail := by
  induction w with
  | nil => exact (Nat.zero_add _).symm
  | cons b w ih =>
    have hnone : codeLen (b :: (w ++ tail)) = none :=
      codeLen_append (List.cons_ne_nil b w) hlast hcode tail
    have hrest : ∀ c ∈ w.getLast?, c ≠ 0 := by
      intro c hc
      apply hlast c
      rw [List.getLast?_cons, Option.mem_def.mp hc]
      rfl
    rw [List.cons_append, scan, hnone, Option.isSome_none, if_neg (by decide),
      ih hrest fun hin => hcode (hin.trans (List.suffix_cons b w).isInfix), List.length_cons]
    omega

theorem scan_nal (n : Nal) (tail : List UInt8) : scan (n.bytes ++ tail) = n.bytes.length + scan tail :=
  scan_append n.last_ne n.no_code tail

theorem codeLen_zeros (k : Nat) : codeLen (List.replicate k 0) = none := by
  rcases k with _ | _ | _ | _ | k
  · rfl
  · rfl
  · rfl
  · rfl
  · cases k with
    | zero => rfl
    | succ k => rfl

theorem scan_zeros (k : Nat) : scan (List.replicate k 0) = k := by
  induction k with
  | zero => rfl
  | succ k ih =>
    have hnone := codeLen_zeros (k + 1)
    rw [List.replicate_succ] at hnone ⊢
    rw [scan, hnone, Option.isSome_none, if_neg (by decide), ih]

theorem codeLen_coded {zeros : Nat} (hzeros : zeros ≤ 1) (b : UInt8) (tail : List UInt8) :
    codeLen (coded zeros (b :: tail)) = some (zeros + 3) := by
  obtain rfl | rfl : zeros = 0 ∨ zeros = 1 := by omega
  · rfl
  · rfl

/-- Of the zero bytes before a code all but one come before it. -/
theorem scan_coded (zeros : Nat) (b : UInt8) (tail : List UInt8) :
    scan (coded zeros (b :: tail)) = zeros - codeZeros zeros := by
  induction zeros with
  | zero => rfl
  | succ zeros ih =>
    cases zeros with
    | zero => rfl
    | succ zeros =>
      have hnone : codeLen (0 :: coded (zeros + 1) (b :: tail)) = none := by
        rcases zeros with _ | _ | zeros
        · rfl
        · rfl
        · rfl
      have hcons : coded (zeros + 1 + 1) (b :: tail) = 0 :: coded (zeros + 1) (b :: tail) := rfl
      rw [hcons, scan, hnone, Option.isSome_none, if_neg (by decide), ih, codeZeros, codeZeros]
      omega

theorem nals_zero (fuel : Nat) (ptr : Mem) : nals fuel ptr 0 = [] := by
  induction fuel with
  | zero => rfl
  | succ fuel ih => rw [nals_fuel (Nat.zero_le fuel), ih]

/-- A unit with the zero bytes that are given to it. -/
def refOf (sl : Slot) : NalRef := ⟨sl.nal.head, sl.nal.bytes ++ List.replicate sl.pad 0⟩

/-- The first turn in a buffer that begins with a start code. -/
theorem nals_cons {zeros : Nat} (hzeros : zeros ≤ 1) (n : Nal) {tail rest : List UInt8} {pad : Nat}
    (hscan : scan tail = pad) (htail : tail = List.replicate pad 0 ++ rest) (behind : Mem) (fuel : Nat) :
    nals (fuel + 1) (memOf (coded zeros (n.bytes ++ tail)) behind) (coded zeros (n.bytes ++ tail)).length =
      ⟨n.head, n.bytes ++ List.replicate pad 0⟩ :: nals fuel (memOf rest behind) rest.length := by
  obtain ⟨b, bs, hbs⟩ := List.exists_cons_of_ne_nil n.ne_nil
  generalize hbytes : coded zeros (n.bytes ++ tail) = bytes
  have hzero : scan bytes = 0 := by
    rw [← hbytes, hbs, List.cons_append, scan_coded, codeZeros, Nat.min_eq_left hzeros, Nat.sub_self]
  have hcode : codeLen (bytes.drop (scan bytes)) = some (zeros + 3) := by
    rw [hzero, List.drop_zero, ← hbytes, hbs, List.cons_append, codeLen_coded hzeros]
  have hdrop : bytes.drop (zeros + 3) = n.bytes ++ (List.replicate pad 0 ++ rest) := by
    rw [← hbytes, drop_coded, htail]
  have hlen : bytes.length = zeros + 3 + (n.bytes.length + (pad + rest.length)) := by
    rw [← hbytes, length_coded, htail]
    simp only [List.length_append, List.length_replicate]
  have hfind : nalFindPos (memOf bytes behind) bytes.length =
      some ⟨0, zeros + 3, n.bytes.length + pad⟩ := by
    rw [nalFindPos_some behind hcode, hzero, Nat.zero_add, ← hbytes, drop_coded, scan_nal, hscan]
  have hrest : bytes.drop (zeros + 3 + (n.bytes.length + pad)) = rest := by
    rw [← List.drop_drop, hdrop, ← List.drop_drop, List.drop_left,
      List.drop_left' List.length_replicate]
  have hbytesAt : (nalAt (memOf bytes behind) ⟨0, zeros + 3, n.bytes.length + pad⟩).bytes =
      n.bytes ++ List.replicate pad 0 := by
    rw [nalAt_memOf bytes behind (by show zeros + 3 + (n.bytes.length + pad) ≤ _; omega)]
    show (bytes.drop (zeros + 3)).take (n.bytes.length + pad) = _
    rw [hdrop, ← List.append_assoc, List.take_left' (by rw [List.length_append, List.length_replicate])]
  have hhead : (nalAt (memOf bytes behind) ⟨0, zeros + 3, n.bytes.length + pad⟩).head = n.head := by
    have hmem := congrFun (memOf_drop bytes behind (show zeros + 3 ≤ bytes.length by omega)) 0
    show memOf bytes behind (zeros + 3) = n.head
    have hfirst := Nal.head?_append n (List.replicate pad 0 ++ rest)
    rw [hbs, List.cons_append, List.head?_cons, Option.some.injEq] at hfirst
    rw [hdrop, hbs, List.cons_append, memOf_zero, hfirst] at hmem
    exact hmem
  have hmem := memOf_drop bytes behind (n := zeros + 3 + (n.bytes.length + pad)) (by omega)
  rw [hrest] at hmem
  have hleft : bytes.length - (n.bytes.length + pad + (zeros + 3 - 0)) = rest.length := by omega
  rw [nals, hfind]
  dsimp only
  rw [hmem, hleft, ← hhead, ← hbytesAt]

theorem nals_coded (us : List NalUnit) (trailing : Nat) (behind : Mem) (u : NalUnit) {zeros : Nat}
    (hzeros : zeros ≤ 1) {fuel : Nat} (hfuel : us.length < fuel) :
    nals fuel (memOf (coded zeros (u.nal.bytes ++ (AnnexB.mk us trailing).bytes)) behind)
        (coded zeros (u.nal.bytes ++ (AnnexB.mk us trailing).bytes)).length =
      (slots (u :: us) trailing []).map refOf := by
  induction us generalizing u zeros fuel with
  | nil =>
    obtain ⟨fuel, rfl⟩ := Nat.exists_eq_succ_of_ne_zero (Nat.ne_of_gt hfuel)
    have htail : (AnnexB.mk [] trailing).bytes = List.replicate trailing 0 := rfl
    rw [htail, nals_cons hzeros u.nal (scan_zeros trailing) (List.append_nil _).symm, List.length_nil,
      nals_zero]
    rfl
  | cons v us ih =>
    obtain ⟨fuel, rfl⟩ := Nat.exists_eq_succ_of_ne_zero (Nat.ne_zero_of_lt hfuel)
    have htail : (AnnexB.mk (v :: us) trailing).bytes =
        coded v.zeros (v.nal.bytes ++ (AnnexB.mk us trailing).bytes) := AnnexB.bytes_cons v us trailing
    have hscan : scan (coded v.zeros (v.nal.bytes ++ (AnnexB.mk us trailing).bytes)) =
        v.zeros - codeZeros v.zeros := by
      obtain ⟨b, bs, hbs⟩ := List.exists_cons_of_ne_nil v.nal.ne_nil
      rw [hbs, List.cons_append, scan_coded]
    have hone : codeZeros v.zeros ≤ 1 := Nat.min_le_right _ _
    rw [htail, nals_cons hzeros u.nal hscan (coded_split _ _), ih v hone (Nat.lt_of_succ_lt_succ hfuel)]
    rfl

/-- In a buffer of NAL units that begins with a start code the loop comes to each unit once. -/
theorem nals_annexB (b : AnnexB) (hfirst : ∀ u ∈ b.units.head?, u.zeros ≤ 1) (behind : Mem) :
    nals b.bytes.length (memOf b.bytes behind) b.bytes.length = (AnnexB.slots b []).map refOf := by
  obtain ⟨us, trailing⟩ := b
  cases us with
  | nil =>
    have hnone : nalFindPos (memOf (AnnexB.mk [] trailing).bytes behind)
        (AnnexB.mk [] trailing).bytes.length = none := by
      apply nalFindPos_none
      show scan (List.replicate trailing 0) = (List.replicate trailing (0 : UInt8)).length
      rw [scan_zeros, List.length_replicate]
    generalize (AnnexB.mk [] trailing).bytes.length = fuel at hnone ⊢
    cases fuel with
    | zero => rfl
    | succ fuel =>
      rw [nals, hnone]
      rfl
  | cons u us =>
    have hbytes : (AnnexB.mk (u :: us) trailing).bytes =
        coded u.zeros (u.nal.bytes ++ (AnnexB.mk us trailing).bytes) := AnnexB.bytes_cons u us trailing
    have hfuel : us.length < (AnnexB.mk (u :: us) trailing).bytes.length :=
      AnnexB.length_units_le (u :: us) trailing
    rw [hbytes] at hfuel ⊢
    exact nals_coded us trailing behind u (hfirst u rfl) hfuel

end ProgrammingPath.Flv
