import ProgrammingPath.Flv.FlvOut

/-!
# Where the loop is in its buffer

The loop of `flv_out_video_h264` and `flv_out_video_h265` moves the pointer by `nal_head_pos + nal_len`
and the length by `nal_len + (nal_head_pos - nal_split_pos)`. The two keep in step as long as nothing
stands before a start code, and a start code without a byte behind it is not found. So the loop is in
its buffer, and its units are what lies between the start codes, for two kinds of buffers: those that
begin with a start code and do not end in one, and those in which no start code has a byte behind it.
-/

namespace ProgrammingPath.Flv

open ProgrammingPath.Lib ProgrammingPath.Rtmp

/-! ## Between the start codes -/

/-- The length of the start code at the front. -/
def startCode : List UInt8 → Option Nat
  | 0 :: 0 :: 0 :: 1 :: _ => some 4
  | 0 :: 0 :: 1 :: _ => some 3
  | _ => none

/-- A start code in a buffer: from `pos` to before `stop`. -/
structure StartCode where
  pos : Nat
  stop : Nat
  deriving DecidableEq, Repr

/-- The codes from `pos` on, one after the other, as `code` finds them. The next `skip` bytes belong to
one that has been found. -/
def codesBy (code : List UInt8 → Option Nat) : Nat → Nat → List UInt8 → List StartCode
  | _, _, [] => []
  | pos, skip + 1, _ :: rest => codesBy code (pos + 1) skip rest
  | pos, 0, b :: rest =>
    match code (b :: rest) with
    | some n => ⟨pos, pos + n⟩ :: codesBy code (pos + 1) (n - 1) rest
    | none => codesBy code (pos + 1) 0 rest

/-- The start codes of a buffer. -/
def startCodes (data : List UInt8) : List StartCode := codesBy startCode 0 0 data

/-- The ranges between consecutive start codes, and from the last one to the end, when there is a byte
behind it. A range is its first position, and the one behind it. -/
def between (size : Nat) : List StartCode → List (Nat × Nat)
  | [] => []
  | [c] => if c.stop < size then [(c.stop, size)] else []
  | c :: d :: rest => (c.stop, d.pos) :: between size (d :: rest)

/-! ## The turns of the loop -/

/-- A turn that finds a unit: `ptr - data` and `len` before it, and what is found. -/
structure LoopTurn where
  ptr : Nat
  len : Nat
  found : NalPos
  deriving DecidableEq, Repr

/-- `ptr - data` after the turn. -/
def LoopTurn.nextPtr (t : LoopTurn) : Nat := t.ptr + (t.found.head + t.found.len)

/-- `len` after the turn. -/
def LoopTurn.nextLen (t : LoopTurn) : Nat := t.len - (t.found.len + (t.found.head - t.found.split))

/-- The range of the unit. -/
def LoopTurn.range (t : LoopTurn) : Nat × Nat :=
  (t.ptr + t.found.head, t.ptr + t.found.head + t.found.len)

/-- The unit that is handled. -/
def LoopTurn.unit (data : Mem) (t : LoopTurn) : NalRef := nalAt (fun i => data (t.ptr + i)) t.found

/-- The turns of the loop, at most so many. -/
def loopTurns (data : Mem) : Nat → Nat → Nat → List LoopTurn
  | 0, _, _ => []
  | fuel + 1, ptr, len =>
    match nalFindPos (fun i => data (ptr + i)) len with
    | none => []
    | some p =>
      let t : LoopTurn := ⟨ptr, len, p⟩
      t :: loopTurns data fuel t.nextPtr t.nextLen

/-- The turns for a buffer. -/
def Video.turns (v : Video) : List LoopTurn :=
  loopTurns (memOf v.data v.behind) v.data.length 0 v.data.length

/-- The turns are those of the loop. -/
theorem nals_eq_turns (data : Mem) (fuel ptr len : Nat) :
    nals fuel (fun i => data (ptr + i)) len =
      (loopTurns data fuel ptr len).map (LoopTurn.unit data) := by
  induction fuel generalizing ptr len with
  | zero => rfl
  | succ fuel ih =>
    rw [nals, loopTurns]
    cases nalFindPos (fun i => data (ptr + i)) len with
    | none => rfl
    | some p =>
      have hptr : (fun i => data (ptr + (p.head + p.len + i))) =
          fun i => data (ptr + (p.head + p.len) + i) := by
        funext i
        rw [Nat.add_assoc ptr]
      dsimp only
      rw [hptr, ih]
      rfl

theorem Video.nals_eq_turns (v : Video) :
    v.nals = v.turns.map (LoopTurn.unit (memOf v.data v.behind)) := by
  have hturns := Flv.nals_eq_turns (memOf v.data v.behind) v.data.length 0 v.data.length
  rwa [show (fun i => memOf v.data v.behind (0 + i)) = memOf v.data v.behind by
    funext i; rw [Nat.zero_add]] at hturns

theorem nalFindPos_bounds {data : Mem} {len : Nat} {p : NalPos} (h : nalFindPos data len = some p) :
    p.split + 3 ≤ p.head ∧ p.head < len := by
  obtain ⟨code, hcode, rfl⟩ := Option.map_eq_some_iff.mp h
  have hbound := codeAt_eq_some hcode
  dsimp only
  omega

/-- The loop has come to its end when the bytes are used up. -/
theorem loopTurns_fuel (data : Mem) {fuel len : Nat} (ptr : Nat) (hfuel : len ≤ fuel) (more : Nat) :
    loopTurns data (fuel + more) ptr len = loopTurns data fuel ptr len := by
  induction fuel generalizing ptr len with
  | zero =>
    cases more with
    | zero => rfl
    | succ more =>
      rw [Nat.zero_add]
      show loopTurns data (more + 1) ptr len = []
      rw [loopTurns]
      cases hfind : nalFindPos (fun i => data (ptr + i)) len with
      | none => rfl
      | some p =>
        have hbound := nalFindPos_bounds hfind
        omega
  | succ fuel ih =>
    rw [Nat.add_right_comm, loopTurns, loopTurns]
    cases hfind : nalFindPos (fun i => data (ptr + i)) len with
    | none => rfl
    | some p =>
      have hbound := nalFindPos_bounds hfind
      dsimp only
      rw [ih _ (by rw [LoopTurn.nextLen]; dsimp only; omega)]

theorem loopTurns_zero (data : Mem) (fuel ptr : Nat) : loopTurns data fuel ptr 0 = [] := by
  have hfuel := loopTurns_fuel data ptr (Nat.le_refl 0) fuel
  rwa [Nat.zero_add] at hfuel

/-! ## The codes that are found -/

theorem codesBy_skip (code : List UInt8 → Option Nat) (pos skip : Nat) (l : List UInt8) :
    codesBy code pos skip l = codesBy code (pos + skip) 0 (l.drop skip) := by
  induction l generalizing pos skip with
  | nil => cases skip <;> rfl
  | cons b rest ih =>
    cases skip with
    | zero => rfl
    | succ skip =>
      rw [codesBy, ih, List.drop_succ_cons]
      congr 1
      omega

/-- At a code. -/
theorem codesBy_some {code : List UInt8 → Option Nat} {l : List UInt8} {n : Nat} (hne : l ≠ [])
    (hpos : 0 < n) (hcode : code l = some n) (pos : Nat) :
    codesBy code pos 0 l = ⟨pos, pos + n⟩ :: codesBy code (pos + n) 0 (l.drop n) := by
  obtain ⟨b, rest, rfl⟩ := List.exists_cons_of_ne_nil hne
  obtain ⟨n, rfl⟩ := Nat.exists_eq_succ_of_ne_zero (Nat.ne_of_gt hpos)
  simp only [codesBy, hcode]
  rw [codesBy_skip, List.drop_succ_cons, Nat.succ_sub_one, Nat.add_assoc, Nat.add_comm 1 n]

theorem codesBy_none {code : List UInt8 → Option Nat} {b : UInt8} {rest : List UInt8}
    (hcode : code (b :: rest) = none) (pos : Nat) :
    codesBy code pos 0 (b :: rest) = codesBy code (pos + 1) 0 rest := by
  simp only [codesBy, hcode]

theorem codeLen_bounds {l : List UInt8} {n : Nat} (h : codeLen l = some n) :
    3 ≤ n ∧ n < l.length := by
  have hat := codeAt_zero l fun _ => 0
  rw [h] at hat
  have hbound := codeAt_eq_some hat
  rwa [Nat.zero_add] at hbound

theorem startCode_of_codeLen {l : List UInt8} {n : Nat} (h : codeLen l = some n) :
    startCode l = some n := by
  rw [codeLen.eq_def] at h
  split at h
  · cases h
    rfl
  · cases h
    rfl
  · cases h

/-- A start code is not found when the buffer ends in it. -/
theorem startCode_of_codeLen_none {l : List UInt8} (h : codeLen l = none) :
    startCode l = none ∨ l = [0, 0, 1] ∨ l = [0, 0, 0, 1] := by
  rw [startCode.eq_def]
  split
  · next rest =>
    cases rest with
    | nil => exact .inr (.inr rfl)
    | cons b rest => cases h
  · next rest =>
    cases rest with
    | nil => exact .inr (.inl rfl)
    | cons b rest => cases h
  · exact .inl rfl

/-- The bytes before the first code that is found. -/
theorem codesBy_scan (pos : Nat) (l : List UInt8) :
    codesBy codeLen pos 0 l = codesBy codeLen (pos + scan l) 0 (l.drop (scan l)) := by
  induction l generalizing pos with
  | nil => rfl
  | cons b rest ih =>
    rw [scan]
    split
    · rfl
    · next hnone =>
      rw [codesBy_none (Option.not_isSome_iff_eq_none.mp hnone), ih, List.drop_succ_cons]
      congr 1
      omega

theorem codeLen_scan {l : List UInt8} (h : scan l ≠ l.length) : codeLen (l.drop (scan l)) ≠ none := by
  induction l with
  | nil => exact absurd rfl h
  | cons b rest ih =>
    rw [scan] at h ⊢
    split
    · next hsome => exact Option.isSome_iff_ne_none.mp hsome
    · next hnone =>
      rw [if_neg hnone, List.length_cons] at h
      exact ih fun heq => h (by rw [heq])

/-! ## In a buffer that begins with a start code -/

/-- The pointer and the length keep in step, and the unit is in the buffer. -/
structure LoopTurn.InStep (size : Nat) (t : LoopTurn) : Prop where
  before : t.ptr + t.len = size
  after : t.nextPtr + t.nextLen = size
  head : t.range.1 < size
  last : t.range.2 ≤ size

/-- Behind the code of `n` bytes at `ptr`: where the next one begins that is found, or the end. -/
def nextCode (bytes : List UInt8) (ptr n : Nat) : Nat := ptr + (n + scan (bytes.drop (ptr + n)))

section Front

variable {bytes : List UInt8} {ptr n : Nat}

theorem nextCode_bounds (hcode : codeLen (bytes.drop ptr) = some n) :
    3 ≤ n ∧ ptr + n < bytes.length ∧ nextCode bytes ptr n ≤ bytes.length := by
  have hbound := codeLen_bounds hcode
  have hrest := scan_le (bytes.drop (ptr + n))
  rw [List.length_drop] at hbound hrest
  rw [nextCode]
  omega

theorem nextCode_front (hcode : codeLen (bytes.drop ptr) = some n) :
    nextCode bytes ptr n = bytes.length ∨ codeLen (bytes.drop (nextCode bytes ptr n)) ≠ none := by
  have hbound := nextCode_bounds hcode
  rw [nextCode] at hbound ⊢
  by_cases hend : scan (bytes.drop (ptr + n)) = (bytes.drop (ptr + n)).length
  · rw [List.length_drop] at hend
    exact .inl (by omega)
  · have hfound := codeLen_scan hend
    rw [List.drop_drop, Nat.add_assoc] at hfound
    exact .inr hfound

/-- A turn that begins at a start code. -/
theorem loopTurns_front (behind : Mem) (hcode : codeLen (bytes.drop ptr) = some n) (fuel : Nat) :
    loopTurns (memOf bytes behind) (fuel + 1) ptr (bytes.length - ptr) =
      ⟨ptr, bytes.length - ptr, ⟨0, n, scan (bytes.drop (ptr + n))⟩⟩ ::
        loopTurns (memOf bytes behind) fuel (nextCode bytes ptr n)
          (bytes.length - nextCode bytes ptr n) := by
  have hbound := nextCode_bounds hcode
  have hscan : scan (bytes.drop ptr) = 0 := by
    cases hdrop : bytes.drop ptr with
    | nil => rfl
    | cons b rest =>
      rw [hdrop] at hcode
      rw [scan, hcode, Option.isSome_some, if_pos rfl]
  have hfirst : codeLen ((bytes.drop ptr).drop (scan (bytes.drop ptr))) = some n := by
    rw [hscan, List.drop_zero, hcode]
  have hfind := nalFindPos_some behind hfirst
  rw [List.length_drop, hscan, Nat.zero_add, List.drop_drop] at hfind
  rw [loopTurns, memOf_drop bytes behind (by omega), hfind]
  dsimp only
  congr 2
  rw [LoopTurn.nextLen, nextCode]
  dsimp only
  omega

theorem inStep_front (hcode : codeLen (bytes.drop ptr) = some n) :
    LoopTurn.InStep bytes.length
      ⟨ptr, bytes.length - ptr, ⟨0, n, scan (bytes.drop (ptr + n))⟩⟩ := by
  have hbound := nextCode_bounds hcode
  rw [nextCode] at hbound
  constructor
  · dsimp only
    omega
  · simp only [LoopTurn.nextPtr, LoopTurn.nextLen]
    omega
  · simp only [LoopTurn.range]
    omega
  · simp only [LoopTurn.range]
    omega

theorem codesBy_front (hcode : codeLen (bytes.drop ptr) = some n) :
    codesBy codeLen ptr 0 (bytes.drop ptr) =
      ⟨ptr, ptr + n⟩ ::
        codesBy codeLen (nextCode bytes ptr n) 0 (bytes.drop (nextCode bytes ptr n)) := by
  have hbound := nextCode_bounds hcode
  have hne : bytes.drop ptr ≠ [] := by
    rw [ne_eq, List.drop_eq_nil_iff]
    omega
  rw [codesBy_some hne (by omega) hcode, List.drop_drop, codesBy_scan, List.drop_drop, nextCode]
  simp only [Nat.add_assoc]

/-- The first of the ranges ends at the next code, or at the end. -/
theorem between_front (hcode : codeLen (bytes.drop ptr) = some n) :
    between bytes.length (codesBy codeLen ptr 0 (bytes.drop ptr)) =
      (ptr + n, nextCode bytes ptr n) :: between bytes.length
        (codesBy codeLen (nextCode bytes ptr n) 0 (bytes.drop (nextCode bytes ptr n))) := by
  rw [codesBy_front hcode]
  rcases nextCode_front hcode with hend | hnext
  · rw [hend, List.drop_length]
    exact if_pos (nextCode_bounds hcode).2.1
  · obtain ⟨m, hm⟩ := Option.ne_none_iff_exists'.mp hnext
    rw [codesBy_front hm, between]

/-- From a start code on the loop comes to what is between the codes that are found. -/
theorem loopTurns_codes (behind : Mem) {fuel : Nat} (hfuel : bytes.length - ptr ≤ fuel)
    (hfront : ptr = bytes.length ∨ codeLen (bytes.drop ptr) ≠ none) :
    (∀ t ∈ loopTurns (memOf bytes behind) fuel ptr (bytes.length - ptr), t.InStep bytes.length) ∧
      (loopTurns (memOf bytes behind) fuel ptr (bytes.length - ptr)).map LoopTurn.range =
        between bytes.length (codesBy codeLen ptr 0 (bytes.drop ptr)) := by
  induction fuel generalizing ptr with
  | zero =>
    have hdrop : bytes.drop ptr = [] := List.drop_eq_nil_of_le (by omega)
    rw [hdrop]
    exact ⟨fun t ht => absurd ht List.not_mem_nil, rfl⟩
  | succ fuel ih =>
    cases hcode : codeLen (bytes.drop ptr) with
    | none =>
      obtain rfl := hfront.resolve_right fun hne => hne hcode
      rw [Nat.sub_self, loopTurns_zero, List.drop_length]
      exact ⟨fun t ht => absurd ht List.not_mem_nil, rfl⟩
    | some n =>
      have hbound := nextCode_bounds hcode
      have hleft : bytes.length - nextCode bytes ptr n ≤ fuel := by
        rw [nextCode]
        omega
      obtain ⟨hsteps, hranges⟩ := ih hleft (nextCode_front hcode)
      rw [loopTurns_front behind hcode, between_front hcode, ← hranges]
      refine ⟨List.forall_mem_cons.mpr ⟨inStep_front hcode, hsteps⟩, ?_⟩
      rw [List.map_cons, LoopTurn.range, nextCode]
      dsimp only
      rw [Nat.add_assoc]

end Front

/-! ## A start code at the end -/

/-- A buffer that does not end in a start code. -/
theorem codesBy_of_not_suffix {l : List UInt8} (h : ¬[0, 0, 1] <:+ l) (pos skip : Nat) :
    codesBy startCode pos skip l = codesBy codeLen pos skip l := by
  induction l generalizing pos skip with
  | nil => rfl
  | cons b rest ih =>
    have hrest : ¬[0, 0, 1] <:+ rest := fun hin => h (hin.trans (List.suffix_cons b rest))
    cases skip with
    | succ skip => exact ih hrest (pos + 1) skip
    | zero =>
      cases hcode : codeLen (b :: rest) with
      | some n => simp only [codesBy, hcode, startCode_of_codeLen hcode, ih hrest]
      | none =>
        rcases startCode_of_codeLen_none hcode with hnone | hlast | hlast
        · simp only [codesBy, hcode, hnone, ih hrest]
        · exact absurd (hlast ▸ List.suffix_refl _) h
        · exact absurd (hlast ▸ List.suffix_cons 0 _) h

/-- The code at the end is behind the ones that are found. -/
theorem suffix_drop_of_codeLen {l : List UInt8} {n : Nat} (hcode : codeLen l = some n)
    (hlast : [0, 0, 1] <:+ l) : [0, 0, 1] <:+ l.drop n := by
  rw [codeLen.eq_def] at hcode
  split at hcode
  · cases hcode
    simpa [List.suffix_cons_iff] using hlast
  · cases hcode
    simpa [List.suffix_cons_iff] using hlast
  · cases hcode

theorem codesBy_of_suffix {l : List UInt8} {skip : Nat} (h : [0, 0, 1] <:+ l.drop skip) (pos : Nat) :
    ∃ last < pos + l.length,
      codesBy startCode pos skip l = codesBy codeLen pos skip l ++ [⟨last, pos + l.length⟩] := by
  induction l generalizing pos skip with
  | nil =>
    rw [List.drop_nil, List.suffix_nil] at h
    cases h
  | cons b rest ih =>
    have hlen : pos + (b :: rest).length = pos + 1 + rest.length := by
      rw [List.length_cons]
      omega
    cases skip with
    | succ skip =>
      rw [hlen]
      exact ih h (pos + 1)
    | zero =>
      cases hcode : codeLen (b :: rest) with
      | some n =>
        obtain ⟨n, rfl⟩ : ∃ k, n = k + 1 := Nat.exists_eq_succ_of_ne_zero (by
          have hbound := codeLen_bounds hcode
          omega)
        have hrest := suffix_drop_of_codeLen hcode h
        rw [List.drop_succ_cons] at hrest
        obtain ⟨last, hlt, heq⟩ := ih hrest (pos + 1)
        refine ⟨last, hlen ▸ hlt, ?_⟩
        simp only [codesBy, hcode, startCode_of_codeLen hcode, Nat.add_sub_cancel]
        rw [hlen, heq, List.cons_append]
      | none =>
        rcases startCode_of_codeLen_none hcode with hnone | hlast | hlast
        · have hrest : [0, 0, 1] <:+ rest.drop 0 := by
            refine (List.suffix_cons_iff.mp h).resolve_left fun heq => ?_
            rw [← heq] at hnone
            cases hnone
          obtain ⟨last, hlt, heq⟩ := ih hrest (pos + 1)
          refine ⟨last, hlen ▸ hlt, ?_⟩
          simp only [codesBy, hcode, hnone]
          rw [hlen, heq]
        · rw [hlast]
          exact ⟨pos, Nat.lt_add_of_pos_right (by decide), rfl⟩
        · rw [hlast]
          exact ⟨pos, Nat.lt_add_of_pos_right (by decide), rfl⟩

/-- A buffer that ends in a start code has one more than are found. -/
theorem startCodes_of_suffix {data : List UInt8} (h : [0, 0, 1] <:+ data) :
    ∃ last < data.length,
      startCodes data = codesBy codeLen 0 0 data ++ [⟨last, data.length⟩] := by
  rw [← List.drop_zero (l := data)] at h
  obtain ⟨last, hlt, heq⟩ := codesBy_of_suffix h 0
  rw [Nat.zero_add] at hlt heq
  exact ⟨last, hlt, heq⟩

/-- One more code at the end takes its bytes from the last range. -/
theorem between_append_ne {size last : Nat} {codes : List StartCode} (hne : codes ≠ [])
    (hlt : last < size) : between size (codes ++ [⟨last, size⟩]) ≠ between size codes := by
  induction codes with
  | nil => exact absurd rfl hne
  | cons c codes ih =>
    cases codes with
    | nil =>
      show (c.stop, last) :: _ ≠ if c.stop < size then [(c.stop, size)] else []
      split
      · intro heq
        rw [List.cons.injEq, Prod.mk.injEq] at heq
        omega
      · exact List.cons_ne_nil _ _
    | cons d codes =>
      intro heq
      exact ih (List.cons_ne_nil d codes) (List.cons.inj heq).2

/-! ## Exactly when the loop is in its buffer -/

/-- No start code has a byte behind it, or the buffer begins with one and does not end in one. -/
def Contained (data : List UInt8) : Prop :=
  ¬[0, 0, 1] <:+: data.dropLast ∨ (startCode data).isSome ∧ ¬[0, 0, 1] <:+ data

instance (data : List UInt8) : Decidable (Contained data) := inferInstanceAs (Decidable (_ ∨ _))

/-- The calls handle the units of the turns, the loop ends, every turn is in the buffer, and the units
are what is between the start codes. -/
structure InBuffer (v : Video) : Prop where
  h264 : ∀ flv, flvOutVideoH264 flv v =
    (v.turns.map (LoopTurn.unit (memOf v.data v.behind))).foldlM (h264Nal v) flv
  h265 : ∀ flv, flvOutVideoH265 flv v =
    (v.turns.map (LoopTurn.unit (memOf v.data v.behind))).foldlM (h265Nal v) flv
  ends : ∀ more,
    loopTurns (memOf v.data v.behind) (v.data.length + more) 0 v.data.length = v.turns
  inStep : ∀ t ∈ v.turns, t.InStep v.data.length
  units : v.turns.map LoopTurn.range = between v.data.length (startCodes v.data)

theorem codeLen_drop_of_scan {l : List UInt8} (h : scan l = l.length) (n : Nat) :
    codeLen (l.drop n) = none := by
  induction l generalizing n with
  | nil =>
    rw [List.drop_nil]
    rfl
  | cons b rest ih =>
    rw [scan] at h
    split at h
    · cases h
    · next hnone =>
      cases n with
      | zero => exact Option.not_isSome_iff_eq_none.mp hnone
      | succ n => exact ih (Nat.succ.inj h) n

theorem infix_dropLast_of_codeLen {l : List UInt8} (h : codeLen l ≠ none) :
    [0, 0, 1] <:+: l.dropLast := by
  rw [codeLen.eq_def] at h
  split at h
  · exact ⟨[0], (_ :: _ : List UInt8).dropLast, rfl⟩
  · exact ⟨[], (_ :: _ : List UInt8).dropLast, rfl⟩
  · exact absurd rfl h

/-- A code is found when one has a byte behind it. -/
theorem infix_dropLast_iff (l : List UInt8) : [0, 0, 1] <:+: l.dropLast ↔ scan l ≠ l.length := by
  constructor
  · rintro ⟨front, tail, heq⟩ hscan
    obtain ⟨b, hlast⟩ : ∃ b, l = l.dropLast ++ [b] := by
      rcases List.eq_nil_or_concat' l with rfl | ⟨init, b, rfl⟩
      · simp at heq
      · exact ⟨b, by rw [List.dropLast_concat]⟩
    have hdrop : l.drop front.length = 0 :: 0 :: 1 :: (tail ++ [b]) := by
      rw [hlast, ← heq, List.append_assoc, List.append_assoc, List.drop_left]
      rfl
    have hnone := codeLen_drop_of_scan hscan front.length
    rw [hdrop] at hnone
    cases tail <;> cases hnone
  · intro hscan
    have hfound := infix_dropLast_of_codeLen (codeLen_scan hscan)
    have hne : l.drop (scan l) ≠ [] := by
      intro hnil
      rw [hnil] at hfound
      simp at hfound
    have hsuffix : (l.drop (scan l)).dropLast <:+ l.dropLast := by
      refine ⟨l.take (scan l), ?_⟩
      rw [← List.dropLast_append_of_ne_nil hne, List.take_append_drop]
    exact hfound.trans hsuffix.isInfix

theorem Video.ends (v : Video) (more : Nat) :
    loopTurns (memOf v.data v.behind) (v.data.length + more) 0 v.data.length = v.turns :=
  loopTurns_fuel _ 0 (Nat.le_refl _) more

/-- No start code is found: there are no turns. -/
theorem turns_of_scan {v : Video} (h : scan v.data = v.data.length) : v.turns = [] := by
  have hnone : nalFindPos (fun i => memOf v.data v.behind (0 + i)) v.data.length = none := by
    rw [memOf_drop v.data v.behind (Nat.zero_le _), List.drop_zero]
    exact nalFindPos_none v.behind h
  rw [← v.ends 1, loopTurns, hnone]

/-- The first turn starts with what stands before the start code. -/
theorem turns_of_found {v : Video} {n : Nat} (hcode : codeLen (v.data.drop (scan v.data)) = some n) :
    ∃ k, ⟨0, v.data.length, ⟨scan v.data, scan v.data + n, k⟩⟩ ∈ v.turns := by
  refine ⟨scan (v.data.drop (scan v.data + n)), ?_⟩
  rw [← v.ends 1, loopTurns, memOf_drop v.data v.behind (Nat.zero_le _), List.drop_zero,
    nalFindPos_some v.behind hcode]
  exact List.mem_cons_self

/-- A buffer that begins with a start code: the loop comes to what is between the codes that are
found. -/
theorem turns_of_front {v : Video} (hcode : codeLen v.data ≠ none) :
    (∀ t ∈ v.turns, t.InStep v.data.length) ∧
      v.turns.map LoopTurn.range = between v.data.length (codesBy codeLen 0 0 v.data) :=
  loopTurns_codes v.behind (Nat.le_refl _) (.inr hcode)

theorem codesBy_ne_nil {data : List UInt8} {n : Nat} (hcode : codeLen data = some n) :
    codesBy codeLen 0 0 data ≠ [] := by
  have hbound := codeLen_bounds hcode
  have hne : data ≠ [] := by
    rintro rfl
    cases hcode
  rw [codesBy_some hne (by omega) hcode]
  exact List.cons_ne_nil _ _

/-- A code without a byte behind it has no range. -/
theorem between_of_scan {data : List UInt8} (h : scan data = data.length) :
    between data.length (startCodes data) = [] := by
  have hfound : codesBy codeLen 0 0 data = [] := by
    rw [codesBy_scan, h, List.drop_length]
    rfl
  by_cases hsuffix : [0, 0, 1] <:+ data
  · obtain ⟨last, -, heq⟩ := startCodes_of_suffix hsuffix
    rw [heq, hfound]
    exact if_neg (Nat.lt_irrefl _)
  · rw [startCodes, codesBy_of_not_suffix hsuffix, hfound]
    rfl

theorem turns_of_contained {v : Video} (h : Contained v.data) :
    (∀ t ∈ v.turns, t.InStep v.data.length) ∧
      v.turns.map LoopTurn.range = between v.data.length (startCodes v.data) := by
  by_cases hscan : scan v.data = v.data.length
  · rw [turns_of_scan hscan, between_of_scan hscan]
    exact ⟨fun t ht => absurd ht List.not_mem_nil, rfl⟩
  · obtain ⟨hfirst, hsuffix⟩ := h.resolve_left fun hnone =>
      hnone ((infix_dropLast_iff v.data).mpr hscan)
    rw [startCodes, codesBy_of_not_suffix hsuffix]
    apply turns_of_front
    intro hnone
    rcases startCode_of_codeLen_none hnone with hnone | hlast | hlast
    · rw [hnone] at hfirst
      cases hfirst
    · exact hsuffix (hlast ▸ List.suffix_refl _)
    · exact hsuffix (hlast ▸ List.suffix_cons 0 _)

theorem contained_of_turns {v : Video} (hsteps : ∀ t ∈ v.turns, t.InStep v.data.length)
    (hunits : v.turns.map LoopTurn.range = between v.data.length (startCodes v.data)) :
    Contained v.data := by
  by_cases hscan : scan v.data = v.data.length
  · exact .inl fun hinfix => (infix_dropLast_iff v.data).mp hinfix hscan
  · right
    obtain ⟨n, hcode⟩ := Option.ne_none_iff_exists'.mp (codeLen_scan hscan)
    -- after the first turn the length still has what stands before the code
    obtain ⟨k, hturn⟩ := turns_of_found hcode
    have hafter := (hsteps _ hturn).after
    have hlast := (hsteps _ hturn).last
    have hzero : scan v.data = 0 := by
      simp only [LoopTurn.nextPtr, LoopTurn.nextLen, LoopTurn.range] at hafter hlast
      omega
    rw [hzero, List.drop_zero] at hcode
    refine ⟨by rw [startCode_of_codeLen hcode, Option.isSome_some], fun hsuffix => ?_⟩
    -- the code at the end is in the last unit
    obtain ⟨last, hlt, heq⟩ := startCodes_of_suffix hsuffix
    have hranges := (turns_of_front (by rw [hcode]; exact Option.some_ne_none n)).2
    rw [hunits, heq] at hranges
    exact between_append_ne (codesBy_ne_nil hcode) hlt hranges

/-- The loop is in its buffer, and handles what is between the start codes, exactly when no start code
has a byte behind it, or the buffer begins with a start code and does not end in one. -/
theorem inBuffer_iff (v : Video) : InBuffer v ↔ Contained v.data := by
  constructor
  · exact fun h => contained_of_turns h.inStep h.units
  · intro h
    obtain ⟨hsteps, hunits⟩ := turns_of_contained h
    refine ⟨fun flv => ?_, fun flv => ?_, v.ends, hsteps, hunits⟩
    · rw [flvOutVideoH264, nalLoop_eq, ← v.nals_eq_turns, Video.nals]
    · rw [flvOutVideoH265, nalLoop_eq, ← v.nals_eq_turns, Video.nals]

/-- A buffer of these bytes. -/
def videoOf (data : List UInt8) : Video := ⟨data, 40, fun _ => 0, fun _ => 0, fun _ => none⟩

/-- The start code at the end is in the last unit. -/
example : (videoOf [0, 0, 1, 0x65, 0, 0, 1]).turns.map LoopTurn.range = [(3, 7)] ∧
    between 7 (startCodes [0, 0, 1, 0x65, 0, 0, 1]) = [(3, 4)] := by decide

/-- One byte stands before the start code. When its unit has been handled, the pointer is at the end
of the buffer, and the length is one. -/
theorem not_inBuffer_byte_before : ¬InBuffer (videoOf [0xFF, 0, 0, 1, 0x65]) := by
  intro h
  have hturn : ⟨0, 5, ⟨1, 4, 1⟩⟩ ∈ (videoOf [0xFF, 0, 0, 1, 0x65]).turns := by decide
  have hafter : 5 + 1 = 5 := (h.inStep _ hturn).after
  cases hafter

end ProgrammingPath.Flv
