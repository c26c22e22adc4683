import ProgrammingPath.Multipart.RoundTrip

/-!
# What is behind the body

The searches of `http_from_data_parse` may read on behind the body. Names, headers and whole delimiters are found in the body
or not at all; what the memory behind it can do is to complete a delimiter that the body breaks off in. The calls are the
same for every memory behind the body if and only if the body does not break off in the delimiter that ends a part
(`isolated_iff`).
-/

namespace ProgrammingPath.Multipart

open ProgrammingPath.Lib

variable {boundary body l d r r' name : List UInt8} {n p q h k t left : Nat}

/-! ## The delimiter -/

/-- A delimiter has between two and four bytes more than the boundary. -/
theorem length_of_fromDataBoundaryCmp (h : fromDataBoundaryCmp boundary l = some k) :
    boundary.length + 3 ≤ k ∧ k ≤ boundary.length + 4 ∧ k ≤ l.length := by
  rw [fromDataBoundaryCmp_eq_some_iff] at h
  obtain ⟨rfl, hpre⟩ | ⟨rfl, hpre⟩ | ⟨rfl, hpre⟩ := h
  all_goals
    refine ⟨?_, ?_, hpre.length_le⟩
    · simp [delimiter]
    · simp [delimiter]

/-- A delimiter that is complete does not depend on what is behind it. -/
theorem fromDataBoundaryCmp_append (h : fromDataBoundaryCmp boundary l = some k) :
    fromDataBoundaryCmp boundary (l ++ r) = some k := by
  rw [fromDataBoundaryCmp_eq_some_iff] at h ⊢
  have hmore := List.prefix_append l r
  exact h.imp (And.imp_right fun hpre => hpre.trans hmore)
    (Or.imp (And.imp_right fun hpre => hpre.trans hmore) (And.imp_right fun hpre => hpre.trans hmore))

theorem fromDataBoundaryCmp_of_append (h : fromDataBoundaryCmp boundary (l ++ r) = some k)
    (hk : k ≤ l.length) : fromDataBoundaryCmp boundary l = some k := by
  rw [fromDataBoundaryCmp_eq_some_iff] at h ⊢
  have hmore := List.prefix_append l r
  obtain ⟨rfl, hpre⟩ | ⟨rfl, hpre⟩ | ⟨rfl, hpre⟩ := h
  · exact .inl ⟨rfl, List.prefix_of_prefix_length_le hpre hmore hk⟩
  · exact .inr (.inl ⟨rfl, List.prefix_of_prefix_length_le hpre hmore hk⟩)
  · exact .inr (.inr ⟨rfl, List.prefix_of_prefix_length_le hpre hmore hk⟩)

/-- With room for a delimiter, nothing behind can complete one. -/
theorem fromDataBoundaryCmp_append_of_none (h : fromDataBoundaryCmp boundary l = none)
    (hroom : boundary.length + 4 ≤ l.length) : fromDataBoundaryCmp boundary (l ++ r) = none := by
  cases hmore : fromDataBoundaryCmp boundary (l ++ r) with
  | none => rfl
  | some k =>
    have hlen := length_of_fromDataBoundaryCmp hmore
    rw [fromDataBoundaryCmp_of_append hmore (by omega)] at h
    exact nomatch h

/-- Bytes that a delimiter begins with. -/
def Unfinished (boundary d : List UInt8) : Prop :=
  d <+: delimiter boundary ++ [13, 10] ∨ d <+: delimiter boundary ++ [45, 45]

/-- A delimiter that is not complete is broken off at the end. -/
theorem unfinished_of_append (h : fromDataBoundaryCmp boundary l = none)
    (hmore : fromDataBoundaryCmp boundary (l ++ r) = some k) : Unfinished boundary l := by
  have hlt : l.length < k := by
    by_contra hle
    rw [fromDataBoundaryCmp_of_append hmore (Nat.le_of_not_lt hle)] at h
    exact nomatch h
  have hl := List.prefix_append l r
  rw [fromDataBoundaryCmp_eq_some_iff] at hmore
  obtain ⟨rfl, hpre⟩ | ⟨rfl, hpre⟩ | ⟨rfl, hpre⟩ := hmore
  · exact .inl (List.prefix_of_prefix_length_le hl hpre (Nat.le_of_lt hlt))
  · rw [List.length_append] at hlt
    have hshort : l <+: delimiter boundary :=
      List.prefix_of_prefix_length_le hl ((List.prefix_append _ _).trans hpre) (Nat.le_of_lt_succ hlt)
    exact .inl (hshort.trans (List.prefix_append _ _))
  · exact .inr (List.prefix_of_prefix_length_le hl hpre (Nat.le_of_lt hlt))

theorem Unfinished.finish (h : Unfinished boundary l) :
    ∃ r, (fromDataBoundaryCmp boundary (l ++ r)).isSome := by
  obtain ⟨r, hr⟩ | ⟨r, hr⟩ := h
  · refine ⟨r, ?_⟩
    rw [hr, fromDataBoundaryCmp_eq_some_iff.mpr (.inl ⟨rfl, List.prefix_rfl⟩)]
    rfl
  · refine ⟨r, ?_⟩
    rw [hr, fromDataBoundaryCmp_eq_some_iff.mpr (.inr (.inr ⟨rfl, List.prefix_rfl⟩))]
    rfl

/-! ## The search for a delimiter -/

theorem formDataBoundaryFindNext_eq_none_iff :
    formDataBoundaryFindNext boundary left l = none ↔
      ∀ i < left, fromDataBoundaryCmp boundary (l.drop i) = none := by
  induction left generalizing l with
  | zero => simp [formDataBoundaryFindNext]
  | succ left ih =>
    rw [formDataBoundaryFindNext]
    split
    · next hsome =>
      refine iff_of_false (Option.some_ne_none 0) (fun h => ?_)
      have hnone : fromDataBoundaryCmp boundary l = none := h 0 (Nat.succ_pos left)
      rw [hnone] at hsome
      exact Bool.false_ne_true hsome
    · next hnone =>
      rw [Option.map_eq_none_iff, ih]
      constructor
      · intro h i hi
        cases i with
        | zero => exact Option.not_isSome_iff_eq_none.mp hnone
        | succ i =>
          rw [Nat.add_comm, ← List.drop_drop, List.drop_one]
          exact h i (Nat.lt_of_succ_lt_succ hi)
      · intro h i hi
        rw [← List.drop_one, List.drop_drop, Nat.add_comm]
        exact h (i + 1) (Nat.succ_lt_succ hi)

theorem formDataBoundaryFindNext_eq_some_iff :
    formDataBoundaryFindNext boundary left l = some k ↔
      k < left ∧ (fromDataBoundaryCmp boundary (l.drop k)).isSome ∧
        ∀ i < k, fromDataBoundaryCmp boundary (l.drop i) = none := by
  constructor
  · intro hfound
    induction left generalizing l k with
    | zero => exact nomatch hfound
    | succ left ih =>
      rw [formDataBoundaryFindNext] at hfound
      split at hfound
      · next hsome =>
        cases hfound
        exact ⟨Nat.succ_pos left, hsome, fun i hi => absurd hi (Nat.not_lt_zero i)⟩
      · next hnone =>
        obtain ⟨k, hk, rfl⟩ := Option.map_eq_some_iff.mp hfound
        obtain ⟨hlt, hsome, hbefore⟩ := ih hk
        rw [← List.drop_one, List.drop_drop, Nat.add_comm] at hsome
        refine ⟨Nat.succ_lt_succ hlt, hsome, fun i hi => ?_⟩
        cases i with
        | zero => exact Option.not_isSome_iff_eq_none.mp hnone
        | succ i =>
          rw [Nat.add_comm, ← List.drop_drop, List.drop_one]
          exact hbefore i (Nat.lt_of_succ_lt_succ hi)
  · rintro ⟨hlt, hsome, hbefore⟩
    rw [formDataBoundaryFindNext_skip hbefore (Nat.le_of_lt hlt),
      formDataBoundaryFindNext_of_isSome hsome (Nat.sub_pos_of_lt hlt), Option.map_some, Nat.zero_add]

/-- The delimiter that is found in the body is found with anything behind it. -/
theorem formDataBoundaryFindNext_append (h : formDataBoundaryFindNext boundary d.length d = some k) :
    formDataBoundaryFindNext boundary d.length (d ++ r) = some k := by
  rw [formDataBoundaryFindNext_eq_some_iff] at h ⊢
  obtain ⟨hlt, hsome, hbefore⟩ := h
  obtain ⟨n, hn⟩ := Option.isSome_iff_exists.mp hsome
  have hlen := length_of_fromDataBoundaryCmp hn
  rw [List.length_drop] at hlen
  refine ⟨hlt, ?_, fun i hi => ?_⟩
  · rw [List.drop_append_of_le_length (Nat.le_of_lt hlt), fromDataBoundaryCmp_append hn]
    rfl
  · rw [List.drop_append_of_le_length (by omega)]
    exact fromDataBoundaryCmp_append_of_none (hbefore i hi) (by rw [List.length_drop]; omega)

/-- The bytes end in the beginning of a delimiter. -/
def EndsUnfinished (boundary d : List UInt8) : Prop := ∃ t < d.length, Unfinished boundary (d.drop t)

theorem formDataBoundaryFindNext_append_none (h : formDataBoundaryFindNext boundary d.length d = none)
    (hend : ¬EndsUnfinished boundary d) : formDataBoundaryFindNext boundary d.length (d ++ r) = none := by
  rw [formDataBoundaryFindNext_eq_none_iff] at h ⊢
  intro i hi
  rw [List.drop_append_of_le_length (Nat.le_of_lt hi)]
  cases hmore : fromDataBoundaryCmp boundary (d.drop i ++ r) with
  | none => rfl
  | some k => exact absurd ⟨i, hi, unfinished_of_append (h i hi) hmore⟩ hend

theorem EndsUnfinished.find (hend : EndsUnfinished boundary d) :
    ∃ r, (formDataBoundaryFindNext boundary d.length (d ++ r)).isSome := by
  obtain ⟨t, hlt, hunfinished⟩ := hend
  obtain ⟨r, hr⟩ := hunfinished.finish
  refine ⟨r, ?_⟩
  rw [Option.isSome_iff_ne_none]
  intro hnone
  have ht := formDataBoundaryFindNext_eq_none_iff.mp hnone t hlt
  rw [List.drop_append_of_le_length (Nat.le_of_lt hlt)] at ht
  rw [ht] at hr
  exact nomatch hr

/-! ## The header -/

/-- A header that ends in the body: where it ends is seen without what is behind. -/
theorem prefix_blank (h : skipHeader d.length (d ++ r) < d.length) :
    ([13, 10, 13, 10] <+: d ++ r' ↔ [13, 10, 13, 10] <+: d) ∧ ([10, 10] <+: d ++ r' ↔ [10, 10] <+: d) := by
  have htwo := two_le_skipHeader h
  have hmore := List.prefix_append d r'
  refine ⟨⟨fun hpre => ?_, fun hpre => hpre.trans hmore⟩,
    fun hpre => List.prefix_of_prefix_length_le hpre hmore (by simp; omega), fun hpre => hpre.trans hmore⟩
  by_cases hfour : 4 ≤ d.length
  · exact List.prefix_of_prefix_length_le hpre hmore hfour
  · -- three bytes of which the first is no line feed have no room for an end of the header
    exfalso
    obtain ⟨b, d, rfl⟩ := List.exists_cons_of_length_pos (Nat.lt_of_lt_of_le (by decide) (htwo.trans h.le))
    have hb : 13 = b := (List.cons_prefix_cons.mp hpre).1
    subst hb
    have hpos := (List.cons_prefix_cons.mp hpre).2
    rw [List.length_cons, List.cons_append, skipHeader] at h htwo
    split_ifs at h htwo with h4 h2
    · rw [List.length_cons] at hfour
      omega
    · exact absurd (List.cons_prefix_cons.mp h2).1 (by decide)
    · rw [List.tail_cons] at h htwo
      have hrest := two_le_skipHeader (Nat.lt_of_succ_lt_succ h)
      rw [List.length_cons] at hfour
      omega

theorem skipHeader_congr (h : skipHeader d.length (d ++ r) < d.length) :
    skipHeader d.length (d ++ r') = skipHeader d.length (d ++ r) := by
  induction d with
  | nil => exact absurd h (Nat.not_lt_zero _)
  | cons b d ih =>
    obtain ⟨h4, h2⟩ := @prefix_blank (b :: d) r r h
    obtain ⟨h4', h2'⟩ := @prefix_blank (b :: d) r r' h
    rw [List.length_cons, List.cons_append, skipHeader] at h
    rw [List.length_cons, List.cons_append, List.cons_append, skipHeader, skipHeader]
    rw [← List.cons_append] at h ⊢
    rw [← List.cons_append, if_congr (h4'.trans h4.symm) rfl (if_congr (h2'.trans h2.symm) rfl rfl)]
    split_ifs at h ⊢
    · rfl
    · rfl
    · rw [List.cons_append, List.cons_append, List.tail_cons, List.tail_cons,
        ih (Nat.lt_of_succ_lt_succ h)]

/-- The header of a body, with anything behind it. -/
theorem skipHeader_append_of_lt (h : skipHeader d.length d < d.length) (r : List UInt8) :
    skipHeader d.length (d ++ r) = skipHeader d.length d := by
  rw [← List.append_nil d] at h
  have hr := @skipHeader_congr d [] r
  rw [List.append_nil] at h hr
  exact hr h

theorem skipHeader_append_of_le (h : d.length ≤ skipHeader d.length d) (r : List UInt8) :
    d.length ≤ skipHeader d.length (d ++ r) := by
  by_contra hlt
  have hnil := @skipHeader_congr d r [] (Nat.lt_of_not_le hlt)
  rw [List.append_nil] at hnil
  omega

/-- A header that ends in the body has a line feed. -/
theorem mem_of_skipHeader (h : skipHeader left d < left) : 10 ∈ d := by
  induction left generalizing d with
  | zero => exact absurd h (Nat.not_lt_zero _)
  | succ left ih =>
    rw [skipHeader] at h
    split_ifs at h with h4 h2
    · exact h4.mem (by decide)
    · exact h2.mem (by decide)
    · exact List.mem_of_mem_tail (ih (Nat.lt_of_succ_lt_succ h))

/-- A line is found before the next line feed. -/
theorem IsLine.prefix_append_of_mem (hname : IsLine name) (hd : 10 ∈ d) : name <+: d ++ r ↔ name <+: d := by
  obtain ⟨u, v, rfl⟩ := List.append_of_mem hd
  have hb : ¬((10 : UInt8) ≠ 13 ∧ (10 : UInt8) ≠ 10) := by decide
  rw [List.append_assoc, List.cons_append, hname.prefix_append_iff hb, hname.prefix_append_iff hb]

theorem IsLine.mem_drop (hname : IsLine name) (hd : 10 ∈ d) (hpre : name <+: d) : 10 ∈ d.drop name.length := by
  obtain ⟨u, v, rfl⟩ := List.append_of_mem hd
  obtain ⟨w, rfl⟩ := (hname.prefix_append_iff (by decide)).mp hpre
  rw [List.append_assoc, List.drop_left]
  exact List.mem_append_right _ List.mem_cons_self

/-- The place where a name is found in the header, with anything behind the body. -/
theorem httpHeaderGet_append (hname : IsLine name) (h : skipHeader d.length d < d.length) :
    (∀ r, httpHeaderGet name (d ++ r) = none) ∨
      ∃ d', 10 ∈ d'.drop name.length ∧ ∀ r, httpHeaderGet name (d ++ r) = some (d' ++ r) := by
  induction d with
  | nil => exact absurd h (Nat.not_lt_zero _)
  | cons b d ih =>
    have hmem := mem_of_skipHeader h
    have hnil : skipHeader (b :: d).length (b :: d ++ []) < (b :: d).length := by
      rw [List.append_nil]
      exact h
    by_cases hstop : b = 0 ∨ [13, 10, 13, 10] <+: b :: d ∨ [10, 10] <+: b :: d
    · left
      intro r
      obtain ⟨h4, h2⟩ := @prefix_blank (b :: d) [] r hnil
      exact if_pos (hstop.imp id (Or.imp h4.mpr h2.mpr))
    · have hnot (r : List UInt8) :
          ¬(b = 0 ∨ [13, 10, 13, 10] <+: b :: (d ++ r) ∨ [10, 10] <+: b :: (d ++ r)) := by
        obtain ⟨h4, h2⟩ := @prefix_blank (b :: d) [] r hnil
        exact fun h => hstop (h.imp id (Or.imp h4.mp h2.mp))
      by_cases hpre : name <+: b :: d
      · right
        refine ⟨b :: d, hname.mem_drop hmem hpre, fun r => ?_⟩
        have hr : name <+: b :: (d ++ r) := (hname.prefix_append_of_mem hmem).mpr hpre
        rw [List.cons_append, httpHeaderGet, if_neg (hnot r), if_pos hr]
      · have hrest (r : List UInt8) : httpHeaderGet name (b :: d ++ r) = httpHeaderGet name (d ++ r) := by
          have hr : ¬name <+: b :: (d ++ r) := fun h => hpre ((hname.prefix_append_of_mem hmem).mp h)
          rw [List.cons_append, httpHeaderGet, if_neg (hnot r), if_neg hr]
        have hskip : skipHeader d.length d < d.length := by
          rw [List.length_cons, skipHeader, if_neg fun h4 => hstop (.inr (.inl h4)),
            if_neg fun h2 => hstop (.inr (.inr h2)), List.tail_cons] at h
          exact Nat.lt_of_succ_lt_succ h
        simp only [hrest]
        exact ih hskip

/-- The text of a line that ends in the body. -/
theorem takeWhile_append_of_mem {v : List UInt8} (hv : 10 ∈ v) (r : List UInt8) :
    (v ++ r).takeWhile (fun b => b != 10 && b != 13) = v.takeWhile (fun b => b != 10 && b != 13) := by
  rw [List.takeWhile_append, if_neg]
  intro hlen
  have hall := List.takeWhile_eq_self_iff.mp ((List.takeWhile_prefix _).eq_of_length hlen)
  exact absurd (hall 10 hv) (by decide)

theorem formDataName_append (h : skipHeader d.length d < d.length) (r : List UInt8) :
    formDataName (d ++ r) = formDataName d := by
  obtain ⟨_, l, hname, -, hb, hb', hl⟩ := dispositionName
  have hline : IsLine (text "Content-Disposition:") := hname ▸ IsLine.cons ⟨hb, hb'⟩ hl
  rw [← List.append_nil d]
  obtain hnone | ⟨d', hmem, hsome⟩ := httpHeaderGet_append hline h
  · rw [formDataName, formDataName, List.append_nil, hnone, ← List.append_nil d, hnone]
  · have hle : (text "Content-Disposition:").length ≤ d'.length := by
      by_contra hgt
      rw [List.drop_of_length_le (Nat.le_of_not_le hgt)] at hmem
      exact List.not_mem_nil hmem
    rw [formDataName, formDataName, List.append_nil, hsome, ← List.append_nil d, hsome]
    dsimp only
    rw [List.drop_append_of_le_length hle, List.drop_append_of_le_length hle, List.append_nil]
    generalize d'.drop (text "Content-Disposition:").length = v at hmem
    cases v with
    | nil => exact absurd hmem List.not_mem_nil
    | cons b v =>
      by_cases hspace : (b :: v).head? = some 32
      · rw [if_pos (show (b :: v ++ r).head? = some 32 from hspace), if_pos hspace]
        cases hspace
        rw [List.cons_append, List.tail_cons, List.tail_cons,
          takeWhile_append_of_mem ((List.mem_cons.mp hmem).resolve_left (by decide))]
      · rw [if_neg (show ¬(b :: v ++ r).head? = some 32 from hspace), if_neg hspace,
          takeWhile_append_of_mem hmem]

/-! ## The parts of a body -/

/-- A delimiter in the body, and the end of the header behind it. -/
def HeaderEnds (boundary body : List UInt8) (p h : Nat) : Prop :=
  ∃ n, fromDataBoundaryCmp boundary (body.drop p) = some n ∧ p + n + 1 < body.length ∧
    h = p + n + skipHeader (body.length - (p + n)) (body.drop (p + n)) ∧ h < body.length

/-- From a place on the parts of the body are read off, and the last one has a header but no delimiter behind it. -/
inductive BreaksOff (boundary body : List UInt8) : Nat → Nat → Prop
  | byte {p q : Nat} : fromDataBoundaryCmp boundary (body.drop p) = none →
      BreaksOff boundary body (p + 1) q → BreaksOff boundary body p q
  | part {p h k q : Nat} : HeaderEnds boundary body p h →
      formDataBoundaryFindNext boundary (body.length - h) (body.drop h) = some k →
      BreaksOff boundary body (h + k) q → BreaksOff boundary body p q
  | last {p q : Nat} : HeaderEnds boundary body p q →
      formDataBoundaryFindNext boundary (body.length - q) (body.drop q) = none → BreaksOff boundary body p q

theorem HeaderEnds.room (hh : HeaderEnds boundary body p h) :
    p + boundary.length + 4 < body.length ∧ p + 2 ≤ h ∧ h < body.length := by
  obtain ⟨n, hcmp, hroom, hh, hlt⟩ := hh
  have hlen := length_of_fromDataBoundaryCmp hcmp
  omega

/-- By how much the length is corrected for a line end in front of the content. -/
def back (body : List UInt8) (h : Nat) : Int :=
  if body.getD (h - 1) 0 = 10 ∧ body.getD (h - 2) 0 = 13 then 2 else 0

/-- The turn at a part asks for nothing behind the body, except in the search for the next delimiter. -/
theorem HeaderEnds.turn (hh : HeaderEnds boundary body p h) :
    ∃ name : List UInt8, ∀ r, turn boundary (body ++ r) body.length p =
      match formDataBoundaryFindNext boundary (body.length - h) (body.drop h ++ r) with
      | none => (none, h + 1)
      | some k =>
        (some ⟨name, (body.drop h ++ r).take (k - back body h).toNat, k - back body h⟩,
          ((h : Int) + (k - back body h)).toNat) := by
  have hroom := hh.room
  obtain ⟨n, hcmp, hn, hh, hlt⟩ := hh
  have hd : (body.drop (p + n)).length = body.length - (p + n) := List.length_drop
  have hskip : skipHeader (body.drop (p + n)).length (body.drop (p + n)) < (body.drop (p + n)).length := by
    rw [hd]
    omega
  have hin (i : Nat) (hi : i < body.length) (r : List UInt8) : (body ++ r).getD i 0 = body.getD i 0 :=
    List.getD_append body r 0 i hi
  refine ⟨formDataName (body.drop (p + n)), fun r => ?_⟩
  have hcmp' : fromDataBoundaryCmp boundary ((body ++ r).drop p) = some n := by
    rw [List.drop_append_of_le_length (by omega)]
    exact fromDataBoundaryCmp_append hcmp
  have hname : formDataName ((body ++ r).drop (p + n)) = formDataName (body.drop (p + n)) := by
    rw [List.drop_append_of_le_length (by omega)]
    exact formDataName_append hskip r
  have hheader : skipHeader (body.length - (p + n)) ((body ++ r).drop (p + n)) =
      skipHeader (body.length - (p + n)) (body.drop (p + n)) := by
    rw [List.drop_append_of_le_length (by omega), ← hd]
    exact skipHeader_append_of_lt hskip r
  have hret (k : Nat) : (if (body ++ r).getD (h - 1) 0 = 10 ∧ (body ++ r).getD (h - 2) 0 = 13 then (k : Int) - 2
      else k) = k - back body h := by
    rw [hin _ (by omega), hin _ (by omega), back]
    split
    · rfl
    · rw [Int.sub_zero]
  have hcontent : (body ++ r).drop h = body.drop h ++ r := List.drop_append_of_le_length (Nat.le_of_lt hlt)
  simp only [Multipart.turn, hcmp', hname, hheader, ← hh, hret, hcontent]
  refine (if_pos hn).trans ((if_pos hlt).trans ?_)
  cases formDataBoundaryFindNext boundary (body.length - h) (body.drop h ++ r) with
  | none => rfl
  | some k => rfl

/-- No delimiter begins in the bytes by which the loop goes back. -/
theorem fromDataBoundaryCmp_back {i : Nat} (hh : h < body.length) (h2 : 2 ≤ h)
    (hk : formDataBoundaryFindNext boundary (body.length - h) (body.drop h) = some k)
    (hi : ((h : Int) + (k - back body h)).toNat ≤ i) (hik : i < h + k) (r : List UInt8) :
    fromDataBoundaryCmp boundary ((body ++ r).drop i) = none := by
  have hd : (body.drop h).length = body.length - h := List.length_drop
  rw [← hd] at hk
  by_cases hin : h ≤ i
  · obtain ⟨j, rfl⟩ := Nat.exists_eq_add_of_le hin
    have hmore := formDataBoundaryFindNext_eq_some_iff.mp (@formDataBoundaryFindNext_append _ _ r _ hk)
    rw [← List.drop_drop, List.drop_append_of_le_length (Nat.le_of_lt hh)]
    exact hmore.2.2 j (Nat.lt_of_add_lt_add_left hik)
  · rw [back] at hi
    split at hi
    · next hcrlf =>
      have hbyte : (body ++ r).drop i = body.getD i 0 :: (body ++ r).drop (i + 1) := by
        rw [List.drop_eq_getElem_cons (by rw [List.length_append]; omega), List.getElem_append_left (by omega),
          List.getD_eq_getElem]
      rw [hbyte]
      obtain rfl | rfl : i = h - 1 ∨ i = h - 2 := by omega
      · exact fromDataBoundaryCmp_of_ne (by rw [hcrlf.1]; decide)
      · exact fromDataBoundaryCmp_of_ne (by rw [hcrlf.2]; decide)
    · omega

/-- A part that ends in the body is handed over, whatever is behind the body. -/
theorem HeaderEnds.parseFrom (hh : HeaderEnds boundary body p h)
    (hk : formDataBoundaryFindNext boundary (body.length - h) (body.drop h) = some k) :
    ∃ callback, ∀ r, parseFrom boundary (body ++ r) body.length p =
      callback :: parseFrom boundary (body ++ r) body.length (h + k) := by
  have hroom := hh.room
  obtain ⟨name, hturn⟩ := hh.turn
  have hd : (body.drop h).length = body.length - h := List.length_drop
  have hfound (r : List UInt8) :
      formDataBoundaryFindNext boundary (body.length - h) (body.drop h ++ r) = some k := by
    rw [← hd] at hk ⊢
    exact formDataBoundaryFindNext_append hk
  have hlt := (formDataBoundaryFindNext_eq_some_iff.mp hk).1
  have hback : 0 ≤ back body h := by
    rw [back]
    split <;> decide
  refine ⟨⟨name, (body.drop h).take (k - back body h).toNat, k - back body h⟩, fun r => ?_⟩
  have hrest := @parseFrom_skip boundary (body ++ r) body.length _ (h + k)
    (fun i hi hik => fromDataBoundaryCmp_back hroom.2.2 (by omega) hk hi hik r) (by omega) (by omega)
  rw [parseFrom_of_lt (by omega), hturn r, hfound r]
  dsimp only
  rw [hrest, List.take_append_of_le_length (by omega)]
  rfl

/-- Without a delimiter that has room for a header behind it nothing is called. -/
theorem parseFrom_of_none {p : Nat}
    (h : ∀ i n, p ≤ i → fromDataBoundaryCmp boundary (body.drop i) = some n → ¬i + n + 1 < body.length)
    (r : List UInt8) : parseFrom boundary (body ++ r) body.length p = [] := by
  by_cases hlt : p < body.length
  · rw [parseFrom_of_lt hlt]
    cases hcmp : fromDataBoundaryCmp boundary ((body ++ r).drop p) with
    | none =>
      rw [turn, hcmp]
      exact parseFrom_of_none (fun i n hi => h i n (Nat.le_of_succ_le hi)) r
    | some n =>
      have hroom : ¬p + n + 1 < body.length := by
        intro hroom
        rw [List.drop_append_of_le_length (Nat.le_of_lt hlt)] at hcmp
        have hbody := fromDataBoundaryCmp_of_append hcmp (by rw [List.length_drop]; omega)
        exact h p n (Nat.le_refl p) hbody hroom
      rw [turn, hcmp]
      dsimp only
      rw [if_neg hroom]
      exact parseFrom_of_le (by show body.length ≤ _; omega)
  · exact parseFrom_of_le (Nat.le_of_not_lt hlt)
termination_by body.length - p

/-- A delimiter whose header does not end in the body. -/
theorem parseFrom_of_not_headerEnds {n : Nat} (hcmp : fromDataBoundaryCmp boundary (body.drop p) = some n)
    (hno : ∀ h, ¬HeaderEnds boundary body p h) (r : List UInt8) :
    parseFrom boundary (body ++ r) body.length p = [] := by
  have hlen := length_of_fromDataBoundaryCmp hcmp
  rw [List.length_drop] at hlen
  have hmore : fromDataBoundaryCmp boundary ((body ++ r).drop p) = some n := by
    rw [List.drop_append_of_le_length (by omega)]
    exact fromDataBoundaryCmp_append hcmp
  rw [parseFrom_of_lt (by omega), turn, hmore]
  dsimp only
  split
  · next hroom =>
    have hd : (body.drop (p + n)).length = body.length - (p + n) := List.length_drop
    have hskip : body.length - (p + n) ≤ skipHeader (body.length - (p + n)) ((body ++ r).drop (p + n)) := by
      rw [List.drop_append_of_le_length (by omega), ← hd]
      refine skipHeader_append_of_le ?_ r
      rw [hd]
      by_contra hlt
      exact hno _ ⟨n, hcmp, hroom, rfl, by omega⟩
    rw [if_neg (by omega)]
    exact parseFrom_of_le (by show body.length ≤ _; omega)
  · exact parseFrom_of_le (by show body.length ≤ _; omega)

/-- At the last part something is called if what is behind the body completes a delimiter. -/
theorem HeaderEnds.parseFrom_last (hh : HeaderEnds boundary body p q)
    (hnone : formDataBoundaryFindNext boundary (body.length - q) (body.drop q) = none) (r : List UInt8) :
    (formDataBoundaryFindNext boundary (body.length - q) (body.drop q ++ r) = none →
      Multipart.parseFrom boundary (body ++ r) body.length p = []) ∧
    ((formDataBoundaryFindNext boundary (body.length - q) (body.drop q ++ r)).isSome →
      Multipart.parseFrom boundary (body ++ r) body.length p ≠ []) := by
  have hroom := hh.room
  obtain ⟨name, hturn⟩ := hh.turn
  rw [parseFrom_of_lt (by omega), hturn r]
  constructor
  · intro hr
    rw [hr]
    refine parseFrom_of_none (fun i n hi hcmp hlt => ?_) r
    obtain ⟨j, rfl⟩ := Nat.exists_eq_add_of_le (Nat.le_of_succ_le hi)
    rw [← List.drop_drop, formDataBoundaryFindNext_eq_none_iff.mp hnone j (by omega)] at hcmp
    exact nomatch hcmp
  · intro hr
    obtain ⟨k, hk⟩ := Option.isSome_iff_exists.mp hr
    rw [hk]
    exact List.cons_ne_nil _ _

theorem BreaksOff.room (hb : BreaksOff boundary body p q) :
    p + boundary.length + 4 < body.length ∧ q < body.length := by
  induction hb with
  | byte _ _ ih => omega
  | part hh _ _ ih => exact ⟨hh.room.1, ih.2⟩
  | last hh _ => exact ⟨hh.room.1, hh.room.2.2⟩

theorem BreaksOff.findNext (hb : BreaksOff boundary body p q) :
    formDataBoundaryFindNext boundary (body.length - q) (body.drop q) = none := by
  induction hb with
  | byte _ _ ih => exact ih
  | part _ _ _ ih => exact ih
  | last _ hnone => exact hnone

/-- The loop at a byte where no delimiter begins, with room for one. -/
theorem parseFrom_byte (hcmp : fromDataBoundaryCmp boundary (body.drop p) = none)
    (hroom : p + boundary.length + 4 ≤ body.length) (r : List UInt8) :
    parseFrom boundary (body ++ r) body.length p = parseFrom boundary (body ++ r) body.length (p + 1) := by
  have hmore : fromDataBoundaryCmp boundary ((body ++ r).drop p) = none := by
    rw [List.drop_append_of_le_length (by omega)]
    exact fromDataBoundaryCmp_append_of_none hcmp (by rw [List.length_drop]; omega)
  rw [parseFrom_of_lt (by omega), turn, hmore]
  rfl

/-- Where the body breaks off in a part, the calls before it are fixed, and there is another one if the delimiter is
completed. -/
theorem BreaksOff.parseFrom (hb : BreaksOff boundary body p q) :
    ∃ callbacks, ∀ r,
      (formDataBoundaryFindNext boundary (body.length - q) (body.drop q ++ r) = none →
        parseFrom boundary (body ++ r) body.length p = callbacks) ∧
      ((formDataBoundaryFindNext boundary (body.length - q) (body.drop q ++ r)).isSome →
        parseFrom boundary (body ++ r) body.length p ≠ callbacks) := by
  induction hb with
  | byte hcmp hrest ih =>
    have hroom := hrest.room
    obtain ⟨callbacks, ih⟩ := ih
    refine ⟨callbacks, fun r => ?_⟩
    rw [parseFrom_byte hcmp (by omega) r]
    exact ih r
  | part hh hk _ ih =>
    obtain ⟨callback, hpart⟩ := hh.parseFrom hk
    obtain ⟨callbacks, ih⟩ := ih
    refine ⟨callback :: callbacks, fun r => ?_⟩
    rw [hpart r]
    exact ⟨fun hr => congrArg _ ((ih r).1 hr), fun hr heq => (ih r).2 hr (List.cons.inj heq).2⟩
  | last hh hnone => exact ⟨[], hh.parseFrom_last hnone⟩

/-- Where it does not, nothing behind the body is seen. -/
theorem parseFrom_of_not_breaksOff {p : Nat} (hno : ∀ q, ¬BreaksOff boundary body p q) (r r' : List UInt8) :
    parseFrom boundary (body ++ r) body.length p = parseFrom boundary (body ++ r') body.length p := by
  by_cases hroom : p + boundary.length + 4 ≤ body.length
  · cases hcmp : fromDataBoundaryCmp boundary (body.drop p) with
    | none =>
      rw [parseFrom_byte hcmp hroom, parseFrom_byte hcmp hroom]
      exact parseFrom_of_not_breaksOff (fun q hq => hno q (.byte hcmp hq)) r r'
    | some n =>
      by_cases hin : ∃ h, HeaderEnds boundary body p h
      · obtain ⟨h, hh⟩ := hin
        have hmove := hh.room
        cases hk : formDataBoundaryFindNext boundary (body.length - h) (body.drop h) with
        | none => exact absurd (.last hh hk) (hno h)
        | some k =>
          obtain ⟨callback, hpart⟩ := hh.parseFrom hk
          rw [hpart r, hpart r',
            parseFrom_of_not_breaksOff (fun q hq => hno q (.part hh hk hq)) r r']
      · have hnil := parseFrom_of_not_headerEnds hcmp (not_exists.mp hin)
        rw [hnil r, hnil r']
  · have hnil := @parseFrom_of_none boundary body p fun i n hi hcmp hlt => by
      have hlen := length_of_fromDataBoundaryCmp hcmp
      omega
    rw [hnil r, hnil r']
termination_by body.length - p

/-! ## Isolation -/

/-- The calls do not depend on what is behind the body. -/
def Isolated (boundary body : List UInt8) : Prop :=
  ∀ r r', httpFromDataParse boundary (body ++ r) body.length = httpFromDataParse boundary (body ++ r') body.length

/-- The calls are fixed by the body if it does not break off in the delimiter behind its last part, and only then. -/
theorem isolated_iff (boundary body : List UInt8) :
    Isolated boundary body ↔
      ¬∃ q, BreaksOff boundary body 0 q ∧ EndsUnfinished boundary (body.drop q) := by
  constructor
  · rintro hsame ⟨q, hb, hend⟩
    obtain ⟨callbacks, hcalls⟩ := hb.parseFrom
    obtain ⟨r, hr⟩ := hend.find
    rw [List.length_drop] at hr
    have hnil : formDataBoundaryFindNext boundary (body.length - q) (body.drop q ++ []) = none := by
      rw [List.append_nil]
      exact hb.findNext
    exact (hcalls r).2 hr ((hsame r []).trans ((hcalls []).1 hnil))
  · intro hno r r'
    by_cases hb : ∃ q, BreaksOff boundary body 0 q
    · obtain ⟨q, hb⟩ := hb
      obtain ⟨callbacks, hcalls⟩ := hb.parseFrom
      have hd : (body.drop q).length = body.length - q := List.length_drop
      have hnone (r : List UInt8) :
          formDataBoundaryFindNext boundary (body.length - q) (body.drop q ++ r) = none := by
        have hfind := hb.findNext
        rw [← hd] at hfind ⊢
        exact formDataBoundaryFindNext_append_none hfind fun hend => hno ⟨q, hb, hend⟩
      exact ((hcalls r).1 (hnone r)).trans ((hcalls r').1 (hnone r')).symm
    · exact parseFrom_of_not_breaksOff (not_exists.mp hb) r r'

/-- A delimiter that is left over behind a request that was cut off hands over a part of it. -/
theorem not_isolated_cut :
    let body := text "--x\r\nContent-Disposition: form-data; name=\"f\"\r\n\r\nhi\r\n--"
    httpFromDataParse (text "x") (body ++ text "x--") body.length =
      [⟨text "form-data; name=\"f\"", text "hi", 2⟩] ∧
    httpFromDataParse (text "x") body body.length = [] ∧ ¬Isolated (text "x") body := by
  intro body
  have hbehind : httpFromDataParse (text "x") (body ++ text "x--") body.length =
      [⟨text "form-data; name=\"f\"", text "hi", 2⟩] := by decide +kernel
  have halone : httpFromDataParse (text "x") (body ++ []) body.length = [] := by decide +kernel
  refine ⟨hbehind, List.append_nil body ▸ halone, fun hsame => ?_⟩
  have hcalls := hsame (text "x--") []
  rw [hbehind, halone] at hcalls
  exact List.cons_ne_nil _ _ hcalls

end ProgrammingPath.Multipart
