import Mathlib.Algebra.Group.Nat.Defs
import ProgrammingPath.Lib.EmulationPrevention
import ProgrammingPath.Rtsp.SpsDecode

/-!
# What `de_emulation_prevention` makes of a NAL unit

The bytes `03` are taken out in place, and the scan goes on over the bytes that moved down, up to the old
length. What it leaves is `kick` of the bytes with copies of the last one behind. After a removal the two
zero bytes still count, though: an odd number of zero bytes, three or more, with a `03` of the payload behind
them loses that byte as well.
-/

namespace ProgrammingPath.Rtsp

open ProgrammingPath.Lib

/-- `de_emulation_prevention` of the `*buf_size` bytes at `off`: the memory and `*buf_size` afterwards.
`*buf_size - 2` has no sign, so that the loop leaves the memory when there are less than two bytes, and the
positions are of type `int`. -/
def deEmulationPreventionAt (mem : Mem) (off : Int) (bufSize : Nat) : Option (Mem × Nat) :=
  if bufSize < 2 ∨ 2 ^ 31 < bufSize then none
  else
    let r := deEmulationPrevention (mem.bytes off bufSize)
    some (mem.write off r.1, r.2)

/-! ## The scan without the bytes at the end -/

/-- The bytes the scan leaves: after a removal it goes on with the second zero byte. -/
def kick : List UInt8 → List UInt8
  | a :: b :: c :: bs =>
    if a = 0 ∧ b = 0 ∧ c = 3 then a :: kick (b :: bs) else a :: kick (b :: c :: bs)
  | bs => bs
termination_by bs => bs.length

section

variable {a b c z : UInt8} {bs front buf : List UInt8} {i k turns removed zeros : Nat}

theorem kick_of_length_le (h : bs.length ≤ 2) : kick bs = bs := by
  match bs, h with
  | [], _ | [_], _ | [_, _], _ => rw [kick]; simp

theorem kick_removes : kick (0 :: 0 :: 3 :: bs) = 0 :: kick (0 :: bs) := by
  rw [kick, if_pos ⟨rfl, rfl, rfl⟩]

theorem kick_stays (h : ¬(a = 0 ∧ b = 0 ∧ c = 3)) :
    kick (a :: b :: c :: bs) = a :: kick (b :: c :: bs) := by
  rw [kick, if_neg h]

theorem length_kick_le (bs : List UInt8) : (kick bs).length ≤ bs.length := by
  fun_induction kick bs with
  | case1 a b c bs _ ih =>
    simp only [List.length_cons] at ih ⊢
    omega
  | case2 a b c bs _ ih =>
    simp only [List.length_cons] at ih ⊢
    omega
  | case3 bs _ => exact Nat.le_refl _

/-- Turns that find nothing change nothing. -/
theorem deEmulationLoop_eq_self (h : ∀ j, i ≤ j → ¬EmulationAt buf j) :
    deEmulationLoop turns i (buf, removed) = (buf, removed) := by
  induction turns generalizing i with
  | zero => rfl
  | succ turns ih =>
    rw [deEmulationLoop, if_neg (h i (Nat.le_refl i))]
    exact ih fun j hj => h j (by omega)

theorem emulationAt_append (j : Nat) :
    EmulationAt (front ++ bs) (front.length + j) ↔ EmulationAt bs j := by
  simp only [EmulationAt, Nat.add_assoc]
  rw [List.getD_append_right _ _ _ _ (by omega), List.getD_append_right _ _ _ _ (by omega),
    List.getD_append_right _ _ _ _ (by omega), Nat.add_sub_cancel_left, Nat.add_sub_cancel_left,
    Nat.add_sub_cancel_left]

/-- Copies of one byte and at most two bytes in front of them, the last of which is that byte: there is no
`00 00 03`. -/
theorem not_emulationAt_replicate (hlen : bs.length ≤ 2)
    (hlast : 2 ≤ bs.length → bs.getLast? = some z) (j : Nat) :
    ¬EmulationAt (bs ++ List.replicate k z) j := by
  rintro ⟨h0, h1, h3⟩
  have htail (n : Nat) (hn : bs.length ≤ n) :
      (bs ++ List.replicate k z).getD n 0 = z ∨ (bs ++ List.replicate k z).getD n 0 = 0 := by
    rw [List.getD_append_right _ _ _ _ hn, List.getD_eq_getElem?_getD, List.getElem?_replicate]
    split
    · exact Or.inl rfl
    · exact Or.inr rfl
  have hz3 : z = 3 := by
    rcases htail (j + 2) (by omega) with h | h
    · exact h.symm.trans h3
    · rw [h] at h3
      exact absurd h3 (by decide)
  have hin : j + 2 < (bs ++ List.replicate k z).length := by
    by_contra hout
    rw [List.getD_eq_default _ _ (by omega)] at h3
    exact absurd h3 (by decide)
  rw [List.length_append, List.length_replicate] at hin
  have hmid : (bs ++ List.replicate k z).getD (j + 1) 0 = z := by
    by_cases hn : bs.length ≤ j + 1
    · rw [List.getD_append_right _ _ _ _ hn, List.getD_replicate _ (by omega)]
    · -- two bytes, and the second of them
      obtain ⟨x, y, rfl⟩ := List.length_eq_two.mp (show bs.length = 2 by omega)
      have hj : j = 0 := by
        simp only [List.length_cons, List.length_nil] at hn
        omega
      subst hj
      exact Option.some.inj (hlast (Nat.le_refl 2))
  rw [h1, hz3] at hmid
  exact absurd hmid (by decide)

/-- The byte at `front.length + 2` goes, and a copy of the last one comes. -/
theorem moveDown_scanned (hlast : (c :: bs).getLast? = some z) :
    moveDown (front ++ (a :: b :: c :: bs ++ List.replicate k z)) (front.length + 2) =
      front ++ (a :: b :: bs ++ List.replicate (k + 1) z) := by
  have hassoc : front ++ (a :: b :: c :: bs ++ List.replicate k z) =
      (front ++ [a, b]) ++ c :: (bs ++ List.replicate k z) := by simp
  have hlen : front.length + 2 = (front ++ [a, b]).length := by simp
  have hz : (c :: (bs ++ List.replicate k z)).getLast? = some z := by
    rw [← List.cons_append, List.getLast?_append]
    cases k with
    | zero => simpa using hlast
    | succ k => simp [List.replicate_succ']
  rw [hassoc, moveDown, hlen, List.take_left, List.getLast?_append, hz,
    List.drop_length_add_append, List.drop_succ_cons, List.drop_zero, List.replicate_succ']
  simp

/-- The loop over what is left of the bytes and the copies of the last one that came behind them. -/
theorem deEmulationLoop_scanned (hturns : turns + 2 = bs.length + k)
    (hlast : 2 ≤ bs.length → bs.getLast? = some z) :
    deEmulationLoop turns front.length (front ++ (bs ++ List.replicate k z), removed) =
      (front ++ (kick bs ++ List.replicate (k + (bs.length - (kick bs).length)) z),
        removed + (bs.length - (kick bs).length)) := by
  induction turns generalizing front bs k removed with
  | zero =>
    rw [kick_of_length_le (by omega), Nat.sub_self]
    rfl
  | succ turns ih =>
    by_cases hlen : bs.length ≤ 2
    · rw [kick_of_length_le hlen, Nat.sub_self]
      apply deEmulationLoop_eq_self
      intro j hj
      obtain ⟨j, rfl⟩ := Nat.exists_eq_add_of_le hj
      rw [emulationAt_append]
      exact not_emulationAt_replicate hlen hlast j
    · obtain ⟨a, b, c, bs, rfl⟩ : ∃ a b c bs', bs = a :: b :: c :: bs' := by
        match bs, hlen with
        | a :: b :: c :: bs', _ => exact ⟨a, b, c, bs', rfl⟩
        | [], h | [_], h | [_, _], h => simp at h
      have hz : (c :: bs).getLast? = some z := by
        simpa using hlast (by simp)
      have hstart : EmulationAt (front ++ (a :: b :: c :: bs ++ List.replicate k z)) front.length ↔
          a = 0 ∧ b = 0 ∧ c = 3 := emulationAt_append 0
      have hnext : front.length + 1 = (front ++ [a]).length := by simp
      simp only [List.length_cons] at hturns
      rw [deEmulationLoop]
      by_cases hat : a = 0 ∧ b = 0 ∧ c = 3
      · rw [if_pos (hstart.mpr hat), moveDown_scanned hz, hnext,
          show front ++ (a :: b :: bs ++ List.replicate (k + 1) z) =
            (front ++ [a]) ++ (b :: bs ++ List.replicate (k + 1) z) by simp]
        rw [ih (by simp only [List.length_cons]; omega)
          (fun h => by
            obtain ⟨d, ds, rfl⟩ := List.exists_cons_of_length_pos (show 0 < bs.length by
              simp only [List.length_cons] at h
              omega)
            simpa using hz)]
        have hk := length_kick_le (b :: bs)
        obtain ⟨rfl, rfl, rfl⟩ := hat
        rw [kick_removes]
        simp only [List.length_cons] at hk ⊢
        have hcount : bs.length + 1 + 1 + 1 - ((kick (0 :: bs)).length + 1) =
            1 + (bs.length + 1 - (kick (0 :: bs)).length) := by omega
        rw [hcount, ← Nat.add_assoc, ← Nat.add_assoc]
        simp
      · rw [if_neg (hstart.not.mpr hat), hnext,
          show front ++ (a :: b :: c :: bs ++ List.replicate k z) =
            (front ++ [a]) ++ (b :: c :: bs ++ List.replicate k z) by simp]
        rw [ih (by simp only [List.length_cons]; omega) (fun _ => by simpa using hz), kick_stays hat]
        simp only [List.length_cons, Nat.add_sub_add_right]
        simp

/-- What `de_emulation_prevention` leaves: the bytes the scan leaves, and copies of the last one behind
them. -/
theorem deEmulationPrevention_eq (h : 2 ≤ buf.length) (hz : buf.getLast? = some z) :
    deEmulationPrevention buf =
      (kick buf ++ List.replicate (buf.length - (kick buf).length) z, (kick buf).length) := by
  have hloop : deEmulationLoop (buf.length - 2) ([] : List UInt8).length
      ([] ++ (buf ++ List.replicate 0 z), 0) = _ :=
    deEmulationLoop_scanned (show buf.length - 2 + 2 = buf.length + 0 by omega) (fun _ => hz)
  have hk := length_kick_le buf
  simp only [List.nil_append, List.replicate_zero, List.append_nil, List.length_nil,
    Nat.zero_add] at hloop
  rw [deEmulationPrevention, hloop]
  simp only [Prod.mk.injEq, true_and]
  omega

end

/-! ## Which payloads come back -/

/-- An odd number of zero bytes, three or more and not more of them in front, and a byte `03` behind. -/
def LosesThree (rbsp : List UInt8) : Prop :=
  ∃ front n back, rbsp = front ++ (List.replicate (2 * n + 3) 0 ++ 3 :: back) ∧ front.getLast? ≠ some 0

/-- So many zero bytes stand in front: no byte `03` from here on is lost. -/
def keeps : Nat → List UInt8 → Prop
  | _, [] => True
  | zeros, b :: bs =>
    ¬(b = 3 ∧ 3 ≤ zeros ∧ zeros % 2 = 1) ∧ keeps (if b = 0 then zeros + 1 else 0) bs

/-- `de_emulation_prevention` gives the payload back with its length, whatever lies around the bytes that
carry it. -/
def GivesBack (rbsp : List UInt8) : Prop :=
  ∀ (mem : Mem) (off : Int), mem.bytes off (nalOfRbsp rbsp).length = nalOfRbsp rbsp →
    ∃ mem', deEmulationPreventionAt mem off (nalOfRbsp rbsp).length = some (mem', rbsp.length) ∧
      mem'.bytes off rbsp.length = rbsp

section

variable {a b c : UInt8} {bs rbsp : List UInt8} {zeros n : Nat}

theorem replicate_append_cons_inj {m : Nat} {x y : List UInt8} (hb : b ≠ 0) (hc : c ≠ 0)
    (h : List.replicate m 0 ++ b :: x = List.replicate n 0 ++ c :: y) : m = n ∧ b = c := by
  induction m generalizing n with
  | zero =>
    cases n with
    | zero => exact ⟨rfl, (List.cons.inj h).1⟩
    | succ n => exact absurd (List.cons.inj h).1 hb
  | succ m ih =>
    cases n with
    | zero => exact absurd (List.cons.inj h).1.symm hc
    | succ n =>
      have := ih (List.cons.inj h).2
      exact ⟨congrArg (· + 1) this.1, this.2⟩

theorem losesThree_cons (hb : b ≠ 0) :
    LosesThree (List.replicate zeros 0 ++ b :: bs) ↔
      (b = 3 ∧ 3 ≤ zeros ∧ zeros % 2 = 1) ∨ LosesThree bs := by
  constructor
  · rintro ⟨front, n, back, heq, hfront⟩
    rcases List.append_eq_append_iff.mp heq with ⟨mid, hmid, hrest⟩ | ⟨mid, hmid, hrest⟩
    · -- the front reaches over the zero bytes
      cases mid with
      | nil =>
        rw [List.nil_append] at hrest
        exact absurd (List.cons.inj hrest).1 hb
      | cons d mid =>
        obtain ⟨rfl, rfl⟩ := List.cons.inj hrest
        refine Or.inr ⟨mid, n, back, rfl, ?_⟩
        rw [hmid] at hfront
        rintro hlast
        apply hfront
        rw [List.getLast?_append, List.getLast?_cons, hlast]
        rfl
    · -- the front lies in the zero bytes
      have hnil : front = [] := by
        by_contra hne
        apply hfront
        rw [List.getLast?_eq_some_getLast hne, Option.some.injEq]
        have hin : front.getLast hne ∈ List.replicate zeros (0 : UInt8) := by
          rw [hmid]
          exact List.mem_append_left _ (List.getLast_mem hne)
        exact List.eq_of_mem_replicate hin
      rw [hnil, List.nil_append] at hmid
      rw [← hmid] at hrest
      have := replicate_append_cons_inj (by decide) hb hrest
      refine Or.inl ⟨this.2.symm, ?_, ?_⟩ <;> omega
  · rintro (⟨rfl, hle, hodd⟩ | ⟨front, n, back, rfl, hfront⟩)
    · refine ⟨[], (zeros - 3) / 2, bs, ?_, by simp⟩
      rw [List.nil_append, show 2 * ((zeros - 3) / 2) + 3 = zeros by omega]
    · refine ⟨List.replicate zeros 0 ++ b :: front, n, back, by simp, ?_⟩
      rw [List.getLast?_append, List.getLast?_cons, Option.some_or]
      cases hlast : front.getLast? with
      | none => simpa using hb
      | some d =>
        rw [hlast] at hfront
        simpa using hfront

theorem not_keeps_iff : ¬keeps zeros rbsp ↔ LosesThree (List.replicate zeros 0 ++ rbsp) := by
  induction rbsp generalizing zeros with
  | nil =>
    refine iff_of_false (fun h => h trivial) ?_
    rintro ⟨front, n, back, heq, -⟩
    have hin : (3 : UInt8) ∈ List.replicate zeros (0 : UInt8) ++ [] := by
      rw [heq]
      simp
    rw [List.append_nil] at hin
    exact absurd (List.eq_of_mem_replicate hin) (by decide)
  | cons b bs ih =>
    by_cases hb : b = 0
    · subst hb
      have hmove : List.replicate zeros (0 : UInt8) ++ 0 :: bs =
          List.replicate (zeros + 1) 0 ++ bs := by
        rw [List.replicate_succ', List.append_assoc, List.singleton_append]
      rw [hmove, ← ih, keeps, if_pos rfl]
      simp
    · rw [losesThree_cons hb, keeps, if_neg hb, not_and_or, not_not, ih, List.replicate_zero,
        List.nil_append]

/-- How many of so many zero bytes stand behind the last byte that was inserted among them. -/
def sinceInserted (zeros : Nat) : Nat :=
  if zeros = 0 then 0 else if zeros % 2 = 1 then 1 else 2

/-- The scan leaves no more bytes than the payload has. -/
theorem length_kick_nalFrom (bs : List UInt8) :
    (∀ a b z, z ≤ 2 → (1 ≤ z → b = 0) → (z = 2 → a = 0) →
      (kick (a :: b :: nalFrom z bs)).length ≤ bs.length + 2) ∧
    ∀ b, (kick (b :: nalFrom 0 bs)).length ≤ bs.length + 1 := by
  induction bs with
  | nil =>
    refine ⟨fun a b z _ _ _ => ?_, fun b => ?_⟩
    · exact length_kick_le [a, b]
    · exact length_kick_le [b]
  | cons c bs ih =>
    obtain ⟨ihTwo, ihOne⟩ := ih
    have hzero : (if c = 0 then 1 else 0 : Nat) ≤ 2 := by split <;> decide
    constructor
    · intro a b z hz hb ha
      by_cases hins : z = 2 ∧ c ≤ 3
      · -- the inserted byte is taken out
        rw [nalFrom, if_pos hins, ha hins.1, hb (by omega), kick_removes]
        have := ihTwo 0 c _ hzero (fun h => by by_contra hc; simp [hc] at h)
          (fun h => by split at h <;> omega)
        simp only [List.length_cons]
        omega
      · rw [nalFrom, if_neg hins]
        by_cases hat : a = 0 ∧ b = 0 ∧ c = 3
        · -- a byte of the payload is taken out
          obtain ⟨rfl, rfl, rfl⟩ := hat
          rw [kick_removes, if_neg (by decide)]
          have := ihOne 0
          simp only [List.length_cons]
          omega
        · rw [kick_stays hat]
          have hnext : (if c = 0 then z + 1 else 0) ≤ 2 := by
            split
            · next hc =>
              have : z ≠ 2 := fun hz2 => hins ⟨hz2, by rw [hc]; decide⟩
              omega
            · exact Nat.zero_le 2
          have := ihTwo b c _ hnext (fun h => by by_contra hc; simp [hc] at h)
            (fun h => by
              split at h
              · exact hb (by omega)
              · omega)
          simp only [List.length_cons]
          omega
    · intro b
      rw [nalFrom, if_neg (fun h => absurd h.1 (by decide)), Nat.zero_add]
      exact ihTwo b c _ hzero (fun h => by by_contra hc; simp [hc] at h)
        (fun h => by split at h <;> omega)

/-- The scan gives back what follows two bytes, `zeros` zero bytes standing at their end and in front. -/
theorem kick_nalFrom_iff (hb : b = 0 ↔ 0 < zeros) (ha : a = 0 ∧ b = 0 ↔ 2 ≤ zeros) :
    kick (a :: b :: nalFrom (sinceInserted zeros) rbsp) = a :: b :: rbsp ↔ keeps zeros rbsp := by
  induction rbsp generalizing a b zeros with
  | nil => exact iff_of_true (kick_of_length_le (Nat.le_refl 2)) trivial
  | cons c bs ih =>
    have hc : c = 0 ↔ 0 < (if c = 0 then zeros + 1 else 0) := by split <;> simp_all
    rw [nalFrom, keeps]
    by_cases hins : sinceInserted zeros = 2 ∧ c ≤ 3
    · -- an even number of zero bytes: the inserted byte is taken out, and what follows stays
      have heven : 2 ≤ zeros ∧ zeros % 2 = 0 := by
        have := hins.1
        unfold sinceInserted at this
        split at this
        · omega
        · split at this <;> omega
      obtain ⟨rfl, rfl⟩ := ha.mpr heven.1
      have hnext : (if c = 0 then 1 else 0) = sinceInserted (if c = 0 then zeros + 1 else 0) := by
        by_cases hc0 : c = 0
        · rw [if_pos hc0, if_pos hc0, sinceInserted, if_neg (by omega), if_pos (by omega)]
        · rw [if_neg hc0, if_neg hc0]
          rfl
      have hpair : (0 : UInt8) = 0 ∧ c = 0 ↔ 2 ≤ (if c = 0 then zeros + 1 else 0) := by
        by_cases hc0 : c = 0
        · rw [if_pos hc0]
          exact iff_of_true ⟨rfl, hc0⟩ (by omega)
        · rw [if_neg hc0]
          exact iff_of_false (fun h => hc0 h.2) (by decide)
      rw [if_pos hins, kick_removes, hnext, List.cons_inj_right, ih hc hpair]
      exact (and_iff_right (fun h => by omega)).symm
    · rw [if_neg hins]
      by_cases hat : a = 0 ∧ b = 0 ∧ c = 3
      · -- an odd number of zero bytes and `03`: a byte of the payload is taken out
        obtain ⟨rfl, rfl, rfl⟩ := hat
        have htwo : 2 ≤ zeros := ha.mp ⟨rfl, rfl⟩
        have hodd : zeros % 2 = 1 := by
          by_contra heven
          refine hins ⟨?_, by decide⟩
          rw [sinceInserted, if_neg (by omega), if_neg heven]
        refine iff_of_false (fun heq => ?_) fun h => h.1 ⟨rfl, by omega, hodd⟩
        have hlen := (length_kick_nalFrom bs).2 0
        rw [kick_removes, if_neg (by decide), List.cons_inj_right] at heq
        rw [heq] at hlen
        simp at hlen
      · have hnext : (if c = 0 then sinceInserted zeros + 1 else 0) =
            sinceInserted (if c = 0 then zeros + 1 else 0) := by
          by_cases hc0 : c = 0
          · have hodd : sinceInserted zeros ≠ 2 := fun h2 => hins ⟨h2, by rw [hc0]; decide⟩
            rw [if_pos hc0, if_pos hc0]
            unfold sinceInserted at hodd ⊢
            grind
          · rw [if_neg hc0, if_neg hc0]
            rfl
        have hpair : b = 0 ∧ c = 0 ↔ 2 ≤ (if c = 0 then zeros + 1 else 0) := by
          by_cases hc0 : c = 0
          · rw [if_pos hc0, hb, and_iff_left hc0]
            omega
          · rw [if_neg hc0]
            exact iff_of_false (fun h => hc0 h.2) (by decide)
        rw [kick_stays hat, hnext, List.cons_inj_right, ih hc hpair]
        refine (and_iff_right fun h => ?_).symm
        have := ha.mpr (by omega)
        exact hat ⟨this.1, this.2, h.1⟩

/-- The scan gives a payload of at least two bytes back unless it loses a `03`. -/
theorem kick_nalOfRbsp_iff (h : 2 ≤ rbsp.length) : kick (nalOfRbsp rbsp) = rbsp ↔ ¬LosesThree rbsp := by
  obtain ⟨a, b, bs, rfl⟩ : ∃ a b bs, rbsp = a :: b :: bs := by
    match rbsp, h with
    | a :: b :: bs, _ => exact ⟨a, b, bs, rfl⟩
  have hkeeps : keeps 0 (a :: b :: bs) ↔ ¬LosesThree (a :: b :: bs) := by
    rw [← not_iff_not, not_not]
    exact not_keeps_iff
  rw [← hkeeps]
  -- the run of zero bytes at the end of the first two
  obtain ⟨zeros, hzeros⟩ : ∃ zeros, zeros = if b = 0 then (if a = 0 then 1 else 0) + 1 else 0 :=
    ⟨_, rfl⟩
  have hnal : nalOfRbsp (a :: b :: bs) = a :: b :: nalFrom (sinceInserted zeros) bs := by
    rw [nalOfRbsp, nalFrom, if_neg (fun h => absurd h.1 (by decide)), nalFrom, if_neg, hzeros]
    · congr 3
      by_cases ha : a = 0 <;> by_cases hb : b = 0 <;> simp [ha, hb, sinceInserted]
    · rintro ⟨h2, -⟩
      split at h2 <;> omega
  have hfirst : keeps 0 (a :: b :: bs) ↔ keeps zeros bs := by
    rw [keeps, keeps, hzeros]
    have hone : (if a = 0 then 0 + 1 else 0) ≤ 1 := by split <;> decide
    rw [and_iff_right (fun h => absurd h.2.1 (by decide)), and_iff_right (fun h => by omega)]
  rw [hnal, hfirst]
  refine kick_nalFrom_iff ?_ ?_
  · by_cases hb : b = 0 <;> simp [hb, hzeros]
  · by_cases ha : a = 0 <;> by_cases hb : b = 0 <;> simp [ha, hb, hzeros]

/-- A function that does not come to its end gives nothing back. -/
theorem not_givesBack (hnone : ∀ mem off,
    deEmulationPreventionAt mem off (nalOfRbsp rbsp).length = none) : ¬GivesBack rbsp := by
  intro hback
  obtain ⟨mem', hrun, -⟩ := hback (Mem.zero.write 0 (nalOfRbsp rbsp)) 0 (Mem.bytes_write_self _)
  rw [hnone] at hrun
  cases hrun

/-- What was written in front of other bytes is there. -/
theorem bytes_write_left (mem : Mem) (off : Int) (xs ys : List UInt8) :
    (mem.write off (xs ++ ys)).bytes off xs.length = xs := by
  have hall : (mem.write off (xs ++ ys)).bytes off (xs ++ ys).length = xs ++ ys :=
    Mem.bytes_write_self mem
  rw [List.length_append] at hall
  exact (Mem.bytes_eq_append _ hall).1

/-- `de_emulation_prevention` gives back the payloads of at least two bytes, as long as its positions have
room for the unit, in which no odd number of three or more zero bytes has a `03` behind. -/
theorem givesBack_iff (hne : rbsp ≠ []) :
    GivesBack rbsp ↔
      2 ≤ rbsp.length ∧ (nalOfRbsp rbsp).length ≤ 2 ^ 31 ∧ ¬LosesThree rbsp := by
  have hnal : rbsp.length ≤ (nalOfRbsp rbsp).length := length_le_nalFrom 0 rbsp
  by_cases htwo : 2 ≤ rbsp.length
  · rw [and_iff_right htwo]
    by_cases hroom : (nalOfRbsp rbsp).length ≤ 2 ^ 31
    · rw [and_iff_right hroom, ← kick_nalOfRbsp_iff htwo]
      have hnonempty : nalOfRbsp rbsp ≠ [] := List.ne_nil_of_length_pos (by omega)
      have hrun (mem : Mem) (off : Int)
          (hmem : mem.bytes off (nalOfRbsp rbsp).length = nalOfRbsp rbsp) :
          deEmulationPreventionAt mem off (nalOfRbsp rbsp).length =
            some (mem.write off (kick (nalOfRbsp rbsp) ++ List.replicate
              ((nalOfRbsp rbsp).length - (kick (nalOfRbsp rbsp)).length)
              ((nalOfRbsp rbsp).getLast hnonempty)), (kick (nalOfRbsp rbsp)).length) := by
        rw [deEmulationPreventionAt, if_neg (by omega), hmem,
          deEmulationPrevention_eq (by omega) (List.getLast?_eq_some_getLast hnonempty)]
      constructor
      · intro hback
        obtain ⟨mem', hsome, hbytes⟩ :=
          hback (Mem.zero.write 0 (nalOfRbsp rbsp)) 0 (Mem.bytes_write_self _)
        rw [hrun _ _ (Mem.bytes_write_self _), Option.some.injEq, Prod.mk.injEq] at hsome
        rw [← hsome.1, ← hsome.2] at hbytes
        exact (bytes_write_left _ _ _ _).symm.trans hbytes
      · intro hkick mem off hmem
        refine ⟨_, (hrun mem off hmem).trans (by rw [hkick]), ?_⟩
        exact bytes_write_left mem off rbsp _
    · refine iff_of_false (not_givesBack fun mem off => ?_) (fun h => hroom h.1)
      rw [deEmulationPreventionAt, if_pos (Or.inr (by omega))]
  · refine iff_of_false (not_givesBack fun mem off => ?_) (fun h => htwo h.1)
    obtain ⟨a, rfl⟩ : ∃ a, rbsp = [a] := by
      have := List.length_pos_of_ne_nil hne
      exact List.length_eq_one_iff.mp (by omega)
    rw [deEmulationPreventionAt, if_pos]
    rw [nalOfRbsp, nalFrom, if_neg (fun h => absurd h.1 (by decide))]
    exact Or.inl (Nat.lt_succ_self 1)

end

/-- The bytes of a parameter set with three zero bytes and a `03` behind. -/
theorem not_givesBack_three : ¬∀ rbsp, rbsp ≠ [] → GivesBack rbsp := by
  intro hall
  obtain ⟨mem', hrun, -⟩ := hall [0x67, 0, 0, 0, 3] (List.cons_ne_nil _ _)
    (Mem.zero.write 0 [0x67, 0, 0, 3, 0, 3]) 0 (by decide)
  have hsize : (deEmulationPreventionAt (Mem.zero.write 0 [0x67, 0, 0, 3, 0, 3]) 0
      (nalOfRbsp [0x67, 0, 0, 0, 3]).length).map Prod.snd = some 4 := by decide +kernel
  rw [hrun, Option.map_some, Option.some.injEq] at hsize
  exact absurd (show 5 = 4 from hsize) (by decide)

/-- A parameter set whose zero bytes come back: of the two `03` only the first is taken out. -/
theorem givesBack_seven : GivesBack [0x67, 0, 0, 3] := by
  refine (givesBack_iff (List.cons_ne_nil _ _)).mpr ⟨by decide, by decide, ?_⟩
  have hkeeps : keeps 0 [0x67, 0, 0, 3] := by simp [keeps]
  have hiff : ¬keeps 0 [0x67, 0, 0, 3] ↔ LosesThree (List.replicate 0 0 ++ [0x67, 0, 0, 3]) :=
    not_keeps_iff
  exact fun hloses => hiff.mpr hloses hkeeps

end ProgrammingPath.Rtsp
