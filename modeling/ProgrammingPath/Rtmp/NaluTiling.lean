import ProgrammingPath.Rtmp.Nalu

/-!
# How the splitter tiles a buffer

`RTMPStreamOut_Send` calls `_nalu_find_access_unit` again and again, on what is left behind the unit that
was found last. Whatever is in the buffer, this comes to an end; from the first start code on the units lie
one behind the other up to the end of the buffer, and none has a start code inside. A start code may have
two or three zero bytes, of which the search counts no more than three, so the zero bytes before them belong
to the unit before.
-/

namespace ProgrammingPath.Rtmp

/-! ## The units of a buffer -/

/-- A unit by its places in the whole buffer. -/
structure Segment where
  start : Nat
  nalu : Nat
  stop : Nat
  deriving DecidableEq, Repr

/-- Calls of `_nalu_find_access_unit` until one returns -1, each on the bytes from `pos_end` of the one
before on; `off` bytes are behind them already. `none` when so many calls are too few. -/
def segmentsFrom : Nat → Nat → List UInt8 → Nat → Option (List Segment)
  | 0, _, _, _ => none
  | calls + 1, off, data, bytes =>
    match naluFindAccessUnit data bytes with
    | none => some []
    | some u =>
      (segmentsFrom calls (off + u.posEnd) (data.drop u.posEnd) (bytes - u.posEnd)).map
        (⟨off + u.posStart, off + u.naluPos, off + u.posEnd⟩ :: ·)

/-- The bytes of a buffer from one place to another. -/
def slice (buf : List UInt8) (i j : Nat) : List UInt8 := (buf.drop i).take (j - i)

/-- Units that lie one behind the other up to the end of the buffer, each with a start code in front and
none inside that a further byte of the buffer follows. -/
structure Tiling (buf : List UInt8) (segs : List Segment) : Prop where
  order : ∀ s ∈ segs, s.start ≤ s.nalu ∧ s.nalu ≤ s.stop ∧ s.stop ≤ buf.length
  code : ∀ s ∈ segs, slice buf s.start s.nalu = [0, 0, 1] ∨ slice buf s.start s.nalu = [0, 0, 0, 1]
  contiguous : segs.IsChain fun s t => s.stop = t.start
  last : ∀ s ∈ segs.getLast?, s.stop = buf.length
  payload : ∀ s ∈ segs, ∀ b, ¬[0, 0, 1, b] <:+: slice buf s.nalu (s.stop + 1)

/-! ## One search -/

/-- What the search saw of zero bytes is there. -/
theorem exists_append_zerosAfter (zeros : Nat) (w : List UInt8) :
    ∃ v, List.replicate zeros 0 ++ w = v ++ List.replicate (zerosAfter zeros w) 0 := by
  induction w generalizing zeros with
  | nil => exact ⟨[], List.append_nil _⟩
  | cons b w ih =>
    by_cases hb : b = 0
    · obtain ⟨v, hv⟩ := ih (zeros + 1)
      refine ⟨v, ?_⟩
      rw [zerosAfter, List.foldl_cons, if_pos hb, ← zerosAfter, ← hv, hb, List.replicate_succ',
        List.append_assoc, List.singleton_append]
    · obtain ⟨v, hv⟩ := ih 0
      rw [List.replicate_zero, List.nil_append] at hv
      refine ⟨List.replicate zeros 0 ++ b :: v, ?_⟩
      rw [zerosAfter, List.foldl_cons, if_neg hb, ← zerosAfter, List.append_assoc, List.cons_append, ← hv]

/-- Where something is found, a start code ends, and a byte follows. -/
theorem naluFindFrom_eq_some {i zeros n leading : Nat} {l : List UInt8}
    (h : naluFindFrom i zeros l = some (n, leading)) :
    ∃ w b rest, l = w ++ 1 :: b :: rest ∧ n = i + w.length + 1 ∧ 2 ≤ zerosAfter zeros w ∧
      leading = min (zerosAfter zeros w) 3 + 1 := by
  fun_induction naluFindFrom i zeros l with
  | case1 i zeros b c rest hfound =>
    cases h
    obtain ⟨rfl, hzeros⟩ := hfound
    exact ⟨[], c, rest, rfl, rfl, hzeros, rfl⟩
  | case2 i zeros b c rest hnot ih =>
    obtain ⟨w, b', rest', hl, rfl, hzeros, hleading⟩ := ih h
    refine ⟨b :: w, b', rest', by rw [hl]; rfl, ?_, hzeros, hleading⟩
    rw [List.length_cons]
    omega
  | case3 i zeros l hshort => cases h

/-- No start code that a byte follows is passed over. -/
theorem naluFindFrom_le (i zeros : Nat) (u : List UInt8) (b : UInt8) (rest : List UInt8) :
    ∃ n leading, naluFindFrom i zeros (u ++ 0 :: 0 :: 1 :: b :: rest) = some (n, leading) ∧
      n ≤ i + u.length + 3 := by
  induction u generalizing i zeros with
  | nil =>
    have hcode : naluFindFrom i zeros (0 :: 0 :: 1 :: b :: rest) = some (i + 1 + 1 + 1, min (zeros + 1 + 1) 3 + 1) := by
      rw [naluFindFrom, if_neg (by simp), if_pos rfl, naluFindFrom, if_neg (by simp), if_pos rfl,
        naluFindFrom_code (by omega)]
    exact ⟨_, _, hcode, Nat.le_refl _⟩
  | cons a u ih =>
    obtain ⟨c, more, hmore⟩ : ∃ c more, u ++ 0 :: 0 :: 1 :: b :: rest = c :: more :=
      List.exists_cons_of_ne_nil (by simp)
    rw [List.cons_append, hmore, naluFindFrom]
    split
    · exact ⟨_, _, rfl, by omega⟩
    · obtain ⟨n, leading, hn, hle⟩ := ih (i + 1) (if a = 0 then zeros + 1 else 0)
      rw [hmore] at hn
      exact ⟨n, leading, hn, by rw [List.length_cons]; omega⟩

/-- The beginning of a unit: a start code with two or three zero bytes, and a byte. -/
def Begins (l : List UInt8) : Prop :=
  ∃ m b rest, (m = 2 ∨ m = 3) ∧ l = List.replicate m 0 ++ 1 :: b :: rest

/-- What one search finds: nothing, and there is no start code that a byte follows; or the first one, with
no more than three zero bytes. -/
theorem naluFind_cases (l : List UInt8) :
    (naluFind l l.length = none ∧ ∀ b, ¬[0, 0, 1, b] <:+: l) ∨
      ∃ v m b rest, (m = 2 ∨ m = 3) ∧ l = v ++ (List.replicate m 0 ++ 1 :: b :: rest) ∧
        naluFind l l.length = some (v.length + m + 1, m + 1) ∧ ∀ b, ¬[0, 0, 1, b] <:+: v ++ [0] := by
  rw [naluFind, List.take_length]
  have hfirst : ∀ u b rest, l = u ++ [0, 0, 1, b] ++ rest →
      ∃ n leading, naluFindFrom 0 0 l = some (n, leading) ∧ n ≤ u.length + 3 := by
    rintro u b rest rfl
    obtain ⟨n, leading, hn, hle⟩ := naluFindFrom_le 0 0 u b rest
    refine ⟨n, leading, ?_, by omega⟩
    rw [← hn, List.append_assoc]
    rfl
  cases hfind : naluFindFrom 0 0 l with
  | none =>
    refine .inl ⟨rfl, fun b hin => ?_⟩
    obtain ⟨u, rest, hl⟩ := hin
    obtain ⟨n, leading, hn, -⟩ := hfirst _ _ _ hl.symm
    rw [hfind] at hn
    cases hn
  | some r =>
    obtain ⟨n, leading⟩ := r
    obtain ⟨w, b, rest, hl, hn, hzeros, hleading⟩ := naluFindFrom_eq_some hfind
    obtain ⟨v, hv⟩ := exists_append_zerosAfter 0 w
    rw [List.replicate_zero, List.nil_append] at hv
    -- the zero bytes that are counted, and those that are left to the unit before
    obtain ⟨m, k, hm, hk⟩ : ∃ m k, (m = 2 ∨ m = 3) ∧ zerosAfter 0 w = k + m ∧ min (zerosAfter 0 w) 3 = m := by
      rcases Nat.lt_or_ge (zerosAfter 0 w) 3 with h | h
      · exact ⟨2, 0, .inl rfl, by omega, by omega⟩
      · exact ⟨3, zerosAfter 0 w - 3, .inr rfl, by omega, by omega⟩
    have hw : w = (v ++ List.replicate k 0) ++ List.replicate m 0 := by
      rw [List.append_assoc, List.replicate_append_replicate, ← hk.1]
      exact hv
    have hwlen : w.length = (v ++ List.replicate k 0).length + m := by
      rw [hw, List.length_append, List.length_replicate]
    refine .inr ⟨v ++ List.replicate k 0, m, b, rest, hm, ?_, ?_, ?_⟩
    · rw [← List.append_assoc, ← hw]
      exact hl
    · rw [hn, hleading, hk.2, hwlen]
      congr 2
      omega
    · rintro c ⟨u, x, hu⟩
      obtain ⟨m', hm'⟩ : ∃ m', List.replicate m (0 : UInt8) = 0 :: List.replicate m' 0 := by
        rcases hm with rfl | rfl
        · exact ⟨1, rfl⟩
        · exact ⟨2, rfl⟩
      have hcode : l = u ++ [0, 0, 1, c] ++ (x ++ (List.replicate m' 0 ++ 1 :: b :: rest)) := by
        rw [← List.append_assoc, hu, hl, hw, hm']
        simp
      obtain ⟨n', leading', hn', hle⟩ := hfirst _ _ _ hcode
      rw [hfind] at hn'
      cases hn'
      have hulen := congrArg List.length hu
      simp only [List.length_append, List.length_cons, List.length_nil, List.length_replicate] at hulen hwlen
      omega

theorem naluFind_begins {m : Nat} (hm : m = 2 ∨ m = 3) (b : UInt8) (rest : List UInt8) :
    naluFind (List.replicate m 0 ++ 1 :: b :: rest) (List.replicate m 0 ++ 1 :: b :: rest).length =
      some (m + 1, m + 1) := by
  rw [naluFind, List.take_length]
  rcases hm with rfl | rfl <;> rfl

/-! ## One call -/

/-- Bytes behind the buffer do not matter. -/
theorem naluFindAccessUnit_append (buf behind : List UInt8) :
    naluFindAccessUnit (buf ++ behind) buf.length = naluFindAccessUnit buf buf.length := by
  have hfind : ∀ n, naluFind ((buf ++ behind).drop n) (buf.length - n) = naluFind (buf.drop n) (buf.length - n) := by
    intro n
    rw [naluFind, naluFind, ← List.length_drop, List.take_length, List.drop_append]
    congr 1
    exact List.take_left
  have hfirst := hfind 0
  rw [List.drop_zero, List.drop_zero, Nat.sub_zero] at hfirst
  rw [naluFindAccessUnit, naluFindAccessUnit, hfirst]
  cases naluFind buf buf.length with
  | none => rfl
  | some r =>
    obtain ⟨n, leading⟩ := r
    dsimp only
    rw [hfind]

/-- What one call finds. -/
structure Found (buf : List UInt8) (u : AccessUnit) : Prop where
  order : u.posStart ≤ u.naluPos ∧ u.naluPos ≤ u.posEnd ∧ u.posEnd ≤ buf.length
  pos : 0 < u.posEnd
  code : slice buf u.posStart u.naluPos = [0, 0, 1] ∨ slice buf u.posStart u.naluPos = [0, 0, 0, 1]
  payload : ∀ b, ¬[0, 0, 1, b] <:+: slice buf u.naluPos (u.posEnd + 1)
  next : u.posEnd = buf.length ∨ Begins (buf.drop u.posEnd)
  start : Begins buf → u.posStart = 0

theorem naluFindAccessUnit_found {buf : List UInt8} {u : AccessUnit}
    (h : naluFindAccessUnit buf buf.length = some u) : Found buf u := by
  rw [naluFindAccessUnit] at h
  rcases naluFind_cases buf with ⟨hnone, -⟩ | ⟨v, m, b, rest, hm, hbuf, hfind, -⟩
  · rw [hnone] at h
    cases h
  have hlen : buf.length = v.length + (m + 1) + (b :: rest).length := by
    rw [hbuf]
    simp only [List.length_append, List.length_replicate, List.length_cons]
    omega
  have hbehind : buf.drop (v.length + m + 1) = b :: rest := by
    have hsplit : buf = (v ++ (List.replicate m 0 ++ [1])) ++ b :: rest := by
      rw [hbuf]
      simp
    rw [hsplit]
    apply List.drop_left'
    simp only [List.length_append, List.length_replicate, List.length_singleton]
    omega
  have hcode : slice buf v.length (v.length + m + 1) = [0, 0, 1] ∨
      slice buf v.length (v.length + m + 1) = [0, 0, 0, 1] := by
    rw [slice, hbuf, List.drop_left, show v.length + m + 1 - v.length = m + 1 by omega]
    rcases hm with rfl | rfl
    · exact .inl rfl
    · exact .inr rfl
  have hstart : Begins buf → v.length + m + 1 - (m + 1) = 0 := by
    rintro ⟨m', b', rest', hm', rfl⟩
    rw [naluFind_begins hm'] at hfind
    have hpair := Prod.mk.inj (Option.some.inj hfind)
    omega
  have hback : v.length + m + 1 - (m + 1) = v.length := by omega
  rw [hfind] at h
  dsimp only at h
  rw [← List.length_drop, hbehind] at h
  rcases naluFind_cases (b :: rest) with ⟨hnone, hno⟩ | ⟨v', m', b', rest', hm', htail, hfind', hno⟩
  · rw [hnone] at h
    obtain rfl : u = ⟨v.length, v.length + m + 1, buf.length⟩ := by rw [← Option.some.inj h, hback]
    have horder : v.length ≤ v.length + m + 1 ∧ v.length + m + 1 ≤ buf.length := by omega
    refine ⟨⟨horder.1, horder.2, Nat.le_refl _⟩, Nat.lt_of_lt_of_le (Nat.succ_pos _) horder.2, hcode, ?_,
      .inl rfl, fun hbegins => hback.symm.trans (hstart hbegins)⟩
    have hshort : (b :: rest).length ≤ buf.length + 1 - (v.length + m + 1) := by omega
    rw [slice, hbehind, List.take_of_length_le hshort]
    exact hno
  · rw [hfind'] at h
    have htailLen := congrArg List.length htail
    simp only [List.length_append, List.length_replicate, List.length_cons] at htailLen hlen
    have hend : v.length + m + 1 + (v'.length + m' + 1) - (m' + 1) = v.length + m + 1 + v'.length := by omega
    obtain rfl : u = ⟨v.length, v.length + m + 1, v.length + m + 1 + v'.length⟩ := by
      rw [← Option.some.inj h, hback, hend]
    have horder : v.length ≤ v.length + m + 1 ∧ v.length + m + 1 + v'.length ≤ buf.length := by omega
    refine ⟨⟨horder.1, Nat.le_add_right _ _, horder.2⟩, Nat.add_pos_left (Nat.succ_pos _) _, hcode, ?_,
      .inr ⟨m', b', rest', hm', ?_⟩, fun hbegins => hback.symm.trans (hstart hbegins)⟩
    · rw [slice, hbehind, Nat.add_assoc (_ + m + 1), Nat.add_sub_cancel_left, htail, List.take_length_add_append]
      rcases hm' with rfl | rfl
      · exact hno
      · exact hno
    · rw [← List.drop_drop, hbehind, htail, List.drop_left]

/-- Nothing is found only where no start code is that a byte follows. -/
theorem naluFindAccessUnit_none {buf : List UInt8} (h : naluFindAccessUnit buf buf.length = none) (b : UInt8) :
    ¬[0, 0, 1, b] <:+: buf := by
  rcases naluFind_cases buf with ⟨-, hno⟩ | ⟨v, m, c, rest, -, -, hfind, -⟩
  · exact hno b
  · rw [naluFindAccessUnit, hfind] at h
    dsimp only at h
    split at h <;> cases h

theorem naluFindAccessUnit_begins {buf : List UInt8} (h : Begins buf) :
    ∃ u, naluFindAccessUnit buf buf.length = some u := by
  obtain ⟨m, b, rest, hm, rfl⟩ := h
  rw [naluFindAccessUnit, naluFind_begins hm]
  dsimp only
  split
  · exact ⟨_, rfl⟩
  · exact ⟨_, rfl⟩

/-! ## All calls -/

theorem slice_drop (buf : List UInt8) (off i j : Nat) : slice (buf.drop off) i j = slice buf (off + i) (off + j) := by
  rw [slice, slice, List.drop_drop, Nat.add_sub_add_left]

theorem segmentsFrom_append (calls off : Nat) (buf behind : List UInt8) :
    segmentsFrom calls off (buf ++ behind) buf.length = segmentsFrom calls off buf buf.length := by
  induction calls generalizing off buf with
  | zero => rfl
  | succ calls ih =>
    rw [segmentsFrom, segmentsFrom, naluFindAccessUnit_append]
    cases hcall : naluFindAccessUnit buf buf.length with
    | none => rfl
    | some u =>
      have hle := (naluFindAccessUnit_found hcall).order.2.2
      dsimp only
      rw [List.drop_append_of_le_length hle, ← List.length_drop, ih]

/-- A step of the loop over the units that notes where the unit is. -/
def noteSegment (s : Nat × List Segment) (_ : List UInt8) (u : AccessUnit) : Option (Nat × List Segment) :=
  some (s.1 + u.posEnd, s.2 ++ [⟨s.1 + u.posStart, s.1 + u.naluPos, s.1 + u.posEnd⟩])

/-- The loop over the units comes to just these. -/
theorem unitLoop_noteSegment {calls off bytes : Nat} {data : List UInt8} {segs : List Segment}
    (h : segmentsFrom calls off data bytes = some segs) (seen : List Segment) :
    (unitLoop noteSegment calls (off, seen) data bytes).map Prod.snd = some (seen ++ segs) := by
  induction calls generalizing off data bytes seen segs with
  | zero => cases h
  | succ calls ih =>
    rw [segmentsFrom] at h
    rw [unitLoop]
    cases hcall : naluFindAccessUnit data bytes with
    | none =>
      rw [hcall] at h
      cases h
      rw [List.append_nil]
      rfl
    | some u =>
      rw [hcall] at h
      obtain ⟨more, hmore, rfl⟩ := Option.map_eq_some_iff.mp h
      refine (ih hmore _).trans ?_
      rw [List.append_assoc]
      rfl

theorem segmentsFrom_nil {calls off bytes : Nat} {data : List UInt8}
    (h : segmentsFrom (calls + 1) off data bytes = some []) : naluFindAccessUnit data bytes = none := by
  rw [segmentsFrom] at h
  cases hcall : naluFindAccessUnit data bytes with
  | none => rfl
  | some u =>
    rw [hcall] at h
    obtain ⟨segs, -, hcons⟩ := Option.map_eq_some_iff.mp h
    cases hcons

theorem tiling_nil (buf : List UInt8) : Tiling buf [] where
  order _ h := nomatch h
  code _ h := nomatch h
  contiguous := .nil
  last _ h := nomatch h
  payload _ h := nomatch h

theorem tiling_cons {buf : List UInt8} {off : Nat} {u : AccessUnit} {segs : List Segment}
    (hstop : off + u.posEnd ≤ buf.length) (hfound : Found (buf.drop off) u) (htiling : Tiling buf segs)
    (hfirst : Begins (buf.drop (off + u.posEnd)) → ∃ s more, segs = s :: more ∧ s.start = off + u.posEnd)
    (hend : off + u.posEnd = buf.length → segs = []) :
    Tiling buf (⟨off + u.posStart, off + u.naluPos, off + u.posEnd⟩ :: segs) := by
  have hnext : off + u.posEnd = buf.length ∨ Begins (buf.drop (off + u.posEnd)) := by
    rcases hfound.next with hlast | hbegins
    · left
      rw [hlast, List.length_drop]
      have hle := hfound.order.2.2
      have hpos := hfound.pos
      rw [List.length_drop] at hle
      omega
    · right
      rwa [List.drop_drop] at hbegins
  refine ⟨List.forall_mem_cons.mpr ⟨?_, htiling.order⟩, List.forall_mem_cons.mpr ⟨?_, htiling.code⟩, ?_, ?_,
    List.forall_mem_cons.mpr ⟨?_, htiling.payload⟩⟩
  · exact ⟨Nat.add_le_add_left hfound.order.1 off, Nat.add_le_add_left hfound.order.2.1 off, hstop⟩
  · rw [← slice_drop]
    exact hfound.code
  · rcases hnext with hlast | hbegins
    · rw [hend hlast]
      exact .singleton _
    · obtain ⟨t, more, rfl, ht⟩ := hfirst hbegins
      exact .cons_cons ht.symm htiling.contiguous
  · rcases hnext with hlast | hbegins
    · rw [hend hlast]
      rintro s ⟨⟩
      exact hlast
    · obtain ⟨t, more, rfl, ht⟩ := hfirst hbegins
      rw [List.getLast?_cons_cons]
      exact htiling.last
  · rw [Nat.add_assoc, ← slice_drop]
    exact hfound.payload

/-- The calls from a place on tile what is left; if a unit begins there, so does the first of them. -/
theorem segmentsFrom_tiling (buf : List UInt8) {off : Nat} (hoff : off ≤ buf.length) :
    ∃ segs, (∀ calls, buf.length - off < calls →
        segmentsFrom calls off (buf.drop off) (buf.length - off) = some segs) ∧
      Tiling buf segs ∧ (Begins (buf.drop off) → ∃ s more, segs = s :: more ∧ s.start = off) := by
  induction hn : buf.length - off using Nat.strong_induction_on generalizing off with
  | _ n ih =>
    have hlen : n = (buf.drop off).length := by rw [List.length_drop, hn]
    cases hcall : naluFindAccessUnit (buf.drop off) n with
    | none =>
      refine ⟨[], fun calls hcalls => ?_, tiling_nil buf, fun hbegins => ?_⟩
      · obtain ⟨calls, rfl⟩ := Nat.exists_eq_succ_of_ne_zero (Nat.ne_zero_of_lt hcalls)
        rw [segmentsFrom, hcall]
      · obtain ⟨u, hu⟩ := naluFindAccessUnit_begins hbegins
        rw [← hlen, hcall] at hu
        cases hu
    | some u =>
      rw [hlen] at hcall
      have hfound := naluFindAccessUnit_found hcall
      have hstop : off + u.posEnd ≤ buf.length := by
        have hle := hfound.order.2.2
        omega
      obtain ⟨segs, hsegs, htiling, hfirst⟩ := ih (buf.length - (off + u.posEnd)) (by have := hfound.pos; omega) hstop rfl
      rw [← hlen] at hcall
      let s : Segment := ⟨off + u.posStart, off + u.naluPos, off + u.posEnd⟩
      refine ⟨s :: segs, fun calls hcalls => ?_, ?_, fun hbegins => ⟨s, segs, rfl, ?_⟩⟩
      · obtain ⟨calls, rfl⟩ := Nat.exists_eq_succ_of_ne_zero (Nat.ne_zero_of_lt hcalls)
        have hrest := hsegs calls (by have := hfound.pos; omega)
        rw [segmentsFrom, hcall]
        dsimp only
        rw [List.drop_drop, ← hn, Nat.sub_sub, hrest]
        rfl
      · refine tiling_cons hstop hfound htiling hfirst fun hend => ?_
        have hlast := hsegs 1 (by rw [hend, Nat.sub_self]; exact Nat.one_pos)
        rw [hend, List.drop_length, Nat.sub_self] at hlast
        exact (Option.some.inj hlast).symm
      · show off + u.posStart = off
        rw [hfound.start hbegins, Nat.add_zero]

/-- Whatever bytes are in the buffer and behind it, the calls come to an end, and the units they find tile
the buffer; there are none only if there is no start code that a byte follows. -/
theorem nalu_tiling (buf behind : List UInt8) :
    ∃ segs, (∀ calls, buf.length < calls → segmentsFrom calls 0 (buf ++ behind) buf.length = some segs) ∧
      Tiling buf segs ∧ (segs = [] → ∀ b, ¬[0, 0, 1, b] <:+: buf) := by
  obtain ⟨segs, hsegs, htiling, -⟩ := segmentsFrom_tiling buf (Nat.zero_le buf.length)
  refine ⟨segs, fun calls hcalls => ?_, htiling, ?_⟩
  · rw [segmentsFrom_append]
    exact hsegs calls hcalls
  · intro hnil
    subst hnil
    have hnone := hsegs (buf.length + 1) (Nat.lt_succ_self _)
    exact naluFindAccessUnit_none (segmentsFrom_nil hnone)

end ProgrammingPath.Rtmp
