import ProgrammingPath.Forward.Text
import ProgrammingPath.Lib.Scan

/-!
# What a list of filters replaces

`string_replace` and `string_replace2` differ in where they write. Both try the filters one after the other, and after a
match they go on with the filters behind it, at the place the match has moved the pointer to and without regard to the end
of the text. `scan` takes the first filter whose text is there; `Due` says that no turn of the loop does anything else.
-/

namespace ProgrammingPath.Forward

open ProgrammingPath.Lib

/-! ## `string_replace2` -/

/-- The stream and the locals of `string_replace2`: what was written, the memory from `ptr` on, how many bytes are left,
and `flag`. -/
structure Turn where
  stream : List UInt8
  mem : List UInt8
  left : Nat
  flag : Bool
  deriving DecidableEq, Repr

/-- One filter of the inner loop. -/
def tryFilter (t : Turn) (f : SubFilter) : Turn :=
  if f.str1 ≠ [] ∧ f.str1 <+: t.mem then
    ⟨t.stream ++ f.str2, t.mem.drop f.str1.length, t.left - f.str1.length, true⟩
  else t

/-- The outer loop, for at most `fuel` turns. -/
def streamLoop (fs : List SubFilter) : Nat → List UInt8 → List UInt8 → Nat → List UInt8
  | 0, stream, _, _ => stream
  | fuel + 1, stream, mem, left =>
    if left = 0 then stream
    else
      let t := fs.foldl tryFilter ⟨stream, mem, left, false⟩
      if t.flag then streamLoop fs fuel t.stream t.mem t.left
      else
        match t.mem with
        | b :: rest => streamLoop fs fuel (t.stream ++ [b]) rest (t.left - 1)
        | [] => t.stream

/-- `string_replace2(mem, slen, ...)`. -/
def stringReplace2 (fs : List SubFilter) (mem : List UInt8) (slen : Nat) : List UInt8 :=
  streamLoop fs slen [] mem slen

/-- The two inner loops do the same. -/
theorem foldl_tryFilter (fs : List SubFilter) (t : Turn) :
    fs.foldl tryFilter t =
      ⟨t.stream ++ (filterPass fs t.mem t.left).written, (filterPass fs t.mem t.left).mem,
        (filterPass fs t.mem t.left).left, t.flag || (filterPass fs t.mem t.left).flag⟩ := by
  induction fs generalizing t with
  | nil => simp [filterPass]
  | cons f fs ih =>
    rw [List.foldl_cons, ih, filterPass, tryFilter]
    split
    · simp only [List.append_assoc, Bool.true_or, Bool.or_true]
    · rfl

/-- A pass in which no filter matches does nothing. -/
theorem filterPass_of_not_flag {fs : List SubFilter} {mem : List UInt8} {left : Nat}
    (hflag : (filterPass fs mem left).flag = false) : filterPass fs mem left = ⟨[], mem, left, false⟩ := by
  induction fs with
  | nil => rfl
  | cons f fs ih =>
    rw [filterPass] at hflag ⊢
    split
    · next hmatch =>
      rw [if_pos hmatch] at hflag
      cases hflag
    · next hmatch =>
      rw [if_neg hmatch] at hflag
      exact ih hflag

theorem streamLoop_eq (fs : List SubFilter) (fuel : Nat) (stream mem : List UInt8) (left : Nat) :
    streamLoop fs fuel stream mem left = stream ++ replaceLoop fs fuel mem left := by
  induction fuel generalizing stream mem left with
  | zero => simp [streamLoop, replaceLoop]
  | succ fuel ih =>
    by_cases hleft : left = 0
    · rw [hleft, replaceLoop_zero, List.append_nil, streamLoop, if_pos rfl]
    · rw [replaceLoop_succ fs fuel mem hleft, streamLoop, if_neg hleft]
      simp only [foldl_tryFilter, Bool.false_or]
      split
      · rw [ih, List.append_assoc]
      · next hflag =>
        rw [filterPass_of_not_flag (Bool.eq_false_iff.mpr hflag)]
        cases mem with
        | nil => simp
        | cons b rest => simp [ih]

/-- **Both functions write the same.** -/
theorem stringReplace2_eq (fs : List SubFilter) (mem : List UInt8) (slen : Nat) :
    stringReplace2 fs mem slen = stringReplace fs mem slen := by
  rw [stringReplace2, streamLoop_eq, List.nil_append, stringReplace]

/-! ## What a pass replaces -/

/-- The filters that a pass replaces, one behind the other. -/
def passed : List SubFilter → List UInt8 → List SubFilter
  | [], _ => []
  | f :: fs, mem =>
    if f.str1 ≠ [] ∧ f.str1 <+: mem then f :: passed fs (mem.drop f.str1.length) else passed fs mem

/-- The bytes they take. -/
def taken (fs : List SubFilter) : Nat := (fs.map fun f => f.str1.length).sum

theorem filterPass_eq (fs : List SubFilter) (mem : List UInt8) (left : Nat) :
    filterPass fs mem left =
      ⟨(passed fs mem).flatMap SubFilter.str2, mem.drop (taken (passed fs mem)),
        left - taken (passed fs mem), !(passed fs mem).isEmpty⟩ := by
  induction fs generalizing mem left with
  | nil => simp [filterPass, passed, taken]
  | cons f fs ih =>
    rw [filterPass, passed]
    split
    · rw [ih]
      simp [taken, List.drop_drop, Nat.sub_sub]
    · exact ih mem left

/-- What the loop does, step by step. -/
def steps (fs : List SubFilter) : Nat → List UInt8 → Nat → List (Piece UInt8 SubFilter)
  | 0, _, _ => []
  | fuel + 1, mem, left =>
    if left = 0 then []
    else if (filterPass fs mem left).flag then
      (passed fs mem).map Piece.take ++
        steps fs fuel (filterPass fs mem left).mem (filterPass fs mem left).left
    else
      match mem with
      | b :: rest => .keep b :: steps fs fuel rest (left - 1)
      | [] => []

theorem steps_succ (fs : List SubFilter) (fuel : Nat) (mem : List UInt8) {left : Nat}
    (hleft : left ≠ 0) :
    steps fs (fuel + 1) mem left =
      if (filterPass fs mem left).flag then
        (passed fs mem).map Piece.take ++
          steps fs fuel (filterPass fs mem left).mem (filterPass fs mem left).left
      else
        match mem with
        | b :: rest => .keep b :: steps fs fuel rest (left - 1)
        | [] => [] := by
  cases mem <;> rw [steps, if_neg hleft]

theorem steps_zero (fs : List SubFilter) (fuel : Nat) (mem : List UInt8) : steps fs fuel mem 0 = [] := by
  cases fuel with
  | zero => rfl
  | succ fuel => cases mem <;> rw [steps, if_pos rfl]

/-- The steps of `string_replace(mem, slen, ...)`. -/
def replacements (fs : List SubFilter) (mem : List UInt8) (slen : Nat) :
    List (Piece UInt8 SubFilter) := steps fs slen mem slen

theorem render_map_take (fs : List SubFilter) (ps : List (Piece UInt8 SubFilter)) :
    render SubFilter.str2 (fs.map Piece.take ++ ps) =
      fs.flatMap SubFilter.str2 ++ render SubFilter.str2 ps := by
  induction fs with
  | nil => rfl
  | cons f fs ih =>
    rw [List.map_cons, List.cons_append, render, ih, List.flatMap_cons, List.append_assoc]

/-- The output is what the steps write. -/
theorem replaceLoop_eq_render (fs : List SubFilter) (fuel : Nat) (mem : List UInt8) (left : Nat) :
    replaceLoop fs fuel mem left = render SubFilter.str2 (steps fs fuel mem left) := by
  induction fuel generalizing mem left with
  | zero => rfl
  | succ fuel ih =>
    by_cases hleft : left = 0
    · rw [hleft, replaceLoop_zero, steps_zero, render]
    · rw [replaceLoop_succ fs fuel mem hleft, steps_succ fs fuel mem hleft]
      split
      · rw [render_map_take, ih, filterPass_eq]
      · cases mem with
        | nil => rfl
        | cons b rest =>
          show b :: _ = b :: _
          rw [ih]

/-! ## When that is a scan -/

/-- Every filter that a pass replaces is the first one whose text is there within the text. -/
def PassDue (all : List SubFilter) : List SubFilter → List UInt8 → Nat → Prop
  | [], _, _ => True
  | f :: fs, mem, left =>
    if f.str1 ≠ [] ∧ f.str1 <+: mem then
      firstFound SubFilter.str1 all (mem.take left) = some f ∧
        PassDue all fs (mem.drop f.str1.length) (left - f.str1.length)
    else PassDue all fs mem left

instance decidablePassDue (all : List SubFilter) : ∀ fs mem left, Decidable (PassDue all fs mem left)
  | [], _, _ => inferInstanceAs (Decidable True)
  | f :: fs, mem, left =>
    haveI := decidablePassDue all fs (mem.drop f.str1.length) (left - f.str1.length)
    haveI := decidablePassDue all fs mem left
    inferInstanceAs (Decidable (if f.str1 ≠ [] ∧ f.str1 <+: mem then _ ∧ _ else _))

/-- And so in every turn. -/
def Due (fs : List SubFilter) : Nat → List UInt8 → Nat → Prop
  | 0, _, _ => True
  | fuel + 1, mem, left =>
    left = 0 ∨
      (PassDue fs fs mem left ∧
        if (filterPass fs mem left).flag then
          Due fs fuel (filterPass fs mem left).mem (filterPass fs mem left).left
        else Due fs fuel mem.tail (left - 1))

instance decidableDue (fs : List SubFilter) : ∀ fuel mem left, Decidable (Due fs fuel mem left)
  | 0, _, _ => inferInstanceAs (Decidable True)
  | fuel + 1, mem, left =>
    haveI := decidableDue fs fuel (filterPass fs mem left).mem (filterPass fs mem left).left
    haveI := decidableDue fs fuel mem.tail (left - 1)
    inferInstanceAs (Decidable (_ ∨ (_ ∧ if (filterPass fs mem left).flag = true then _ else _)))

/-- One pass. -/
theorem passed_append_eq_scan_iff {all fs : List SubFilter} {mem : List UInt8} {left : Nat}
    {ps : List (Piece UInt8 SubFilter)} :
    (passed fs mem).map Piece.take ++ ps = scan SubFilter.str1 all (mem.take left) ↔
      PassDue all fs mem left ∧
        ps = scan SubFilter.str1 all
          ((mem.drop (taken (passed fs mem))).take (left - taken (passed fs mem))) := by
  induction fs generalizing mem left with
  | nil => simp [passed, PassDue, taken]
  | cons f fs ih =>
    rw [passed, PassDue]
    by_cases hmatch : f.str1 ≠ [] ∧ f.str1 <+: mem
    · rw [if_pos hmatch, if_pos hmatch, List.map_cons, List.cons_append, take_cons_eq_scan_iff,
        List.drop_take, ih, and_assoc]
      simp [taken, List.drop_drop, Nat.sub_sub]
    · rw [if_neg hmatch, if_neg hmatch, ih]

/-- A turn without a match copies a byte, and so does the scan. -/
theorem firstFound_of_not_flag {fs : List SubFilter} {mem : List UInt8} {left : Nat}
    (hflag : passed fs mem = []) : firstFound SubFilter.str1 fs (mem.take left) = none := by
  rw [firstFound_eq_none_iff]
  induction fs with
  | nil => simp
  | cons f fs ih =>
    rw [passed] at hflag
    by_cases hmatch : f.str1 ≠ [] ∧ f.str1 <+: mem
    · rw [if_pos hmatch] at hflag
      cases hflag
    · rw [if_neg hmatch] at hflag
      intro g hg
      rcases List.mem_cons.mp hg with rfl | hg
      · exact fun hfinds => hmatch hfinds.of_take
      · exact ih hflag g hg

/-- The steps of the loop are those of the scan exactly if in every turn they are due. -/
theorem steps_eq_scan_iff {fs : List SubFilter} {fuel left : Nat} {mem : List UInt8}
    (hfuel : left ≤ fuel) (hmem : left ≤ mem.length) :
    steps fs fuel mem left = scan SubFilter.str1 fs (mem.take left) ↔ Due fs fuel mem left := by
  induction fuel generalizing mem left with
  | zero =>
    rw [Nat.le_zero.mp hfuel, List.take_zero, scan_nil]
    exact iff_of_true rfl trivial
  | succ fuel ih =>
    by_cases hleft : left = 0
    · rw [hleft, List.take_zero, scan_nil, steps_zero]
      exact iff_of_true rfl (Or.inl rfl)
    · rw [steps_succ fs fuel mem hleft, Due, or_iff_right hleft]
      cases hflag : (filterPass fs mem left).flag with
      | true =>
        obtain ⟨c, hm, hl, hpos⟩ := filterPass_moves fs mem left
        have hc := hpos hflag
        have hfuel' : (filterPass fs mem left).left ≤ fuel := by omega
        have hmem' : (filterPass fs mem left).left ≤ (filterPass fs mem left).mem.length := by
          rw [hm, hl, List.length_drop]
          omega
        have hrest := ih hfuel' hmem'
        rw [if_pos rfl, if_pos rfl, passed_append_eq_scan_iff, ← hrest, filterPass_eq]
      | false =>
        have hnil : passed fs mem = [] := by
          rw [filterPass_eq] at hflag
          simpa using hflag
        have hpassed : (passed fs mem).map Piece.take ++ scan SubFilter.str1 fs (mem.take left) =
            scan SubFilter.str1 fs (mem.take left) := by
          rw [hnil]
          rfl
        have hdue : PassDue fs fs mem left := (passed_append_eq_scan_iff.mp hpassed).1
        obtain ⟨b, rest, rfl⟩ := List.exists_cons_of_length_pos (show 0 < mem.length by omega)
        obtain ⟨left, rfl⟩ := Nat.exists_eq_succ_of_ne_zero hleft
        have hnone : firstFound SubFilter.str1 fs (b :: rest.take left) = none :=
          @firstFound_of_not_flag fs (b :: rest) (left + 1) hnil
        have hfuel' : left ≤ fuel := Nat.le_of_succ_le_succ hfuel
        have hmem' : left ≤ rest.length := Nat.le_of_succ_le_succ hmem
        have hrest := ih hfuel' hmem'
        rw [if_neg Bool.false_ne_true, if_neg Bool.false_ne_true, and_iff_right hdue,
          List.take_succ_cons, scan_of_none hnone]
        show Piece.keep b :: steps fs fuel rest left = _ ↔ Due fs fuel rest left
        rw [← hrest, List.cons.injEq, and_iff_right rfl]

/-- `ab` becomes `x`, and then `c` becomes `y`. -/
def separateFilters : List SubFilter :=
  [⟨[97, 98], [120], by decide, by decide⟩, ⟨[99], [121], by decide, by decide⟩]

/-- `a` becomes `x`, and `ab` becomes `y`. -/
def nestedFilters : List SubFilter :=
  [⟨[97], [120], by decide, by decide⟩, ⟨[97, 98], [121], by decide, by decide⟩]

end ProgrammingPath.Forward
