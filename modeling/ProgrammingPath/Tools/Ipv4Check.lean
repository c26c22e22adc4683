import Mathlib.Data.List.TakeWhile
import ProgrammingPath.Rtsp.Number

/-!
# The check of an IPv4 address (`public_tools/tools.c`)

`tools_ipv4strcheck` goes three times over the text: its length, its characters and dots, and the
numbers between the dots, each of which is stored as soon as it has been read. What is accepted is
four numbers up to 255 with dots between them, and then they are the result. When a number is refused
those before it have been stored already.
-/

namespace ProgrammingPath.Ipv4Check

open ProgrammingPath.Rtsp

/-! ## The code -/

/-- `atoi`. -/
def atoi (buff : List UInt8) : Int := toInt ((scanInt buff).getD 0)

/-- What `pv[i] = atoi(buff)` keeps of a number. -/
def lowByte (v : Int) : UInt8 := UInt8.ofNat (v % 256).toNat

/-- The second pass: the number of dots, on top of `i`; `none` when there is another character. A
`char` from `0x80` on is negative, and no digit either. -/
def countDots : List UInt8 → Nat → Option Nat
  | [], i => some i
  | c :: ptr, i => if c = 46 then countDots ptr (i + 1) else if isDigit c then countDots ptr i else none

/-- The third pass, with `left` numbers to come: the value returned, and what `*ipv4` holds then.
`none` when a number and its NUL do not fit into `buff`. -/
def storeNumbers : Nat → List UInt8 → Option (List UInt8) → Option (Int × Option (List UInt8))
  | 0, _, pv => some (0, pv)
  | left + 1, ptr, pv =>
    let i := 3 - left
    let next : Option Nat :=
      if 46 ∈ ptr then some (ptr.takeWhile (· != 46)).length
      else if i = 3 then some ptr.length else none
    match next with
    | none => some (0, pv)
    | some n =>
      let buff := ptr.take n
      if 15 ≤ n then none
      else if 255 < atoi buff ∨ buff.length = 0 then some (-1, pv)
      else storeNumbers left (ptr.drop (n + 1)) (pv.map fun bytes => bytes.set i (lowByte (atoi buff)))

/-- `tools_ipv4strcheck`; `ipv4` is null or its four bytes. -/
def toolsIpv4strcheck (ipstring : List UInt8) (ipv4 : Option (List UInt8)) :
    Option (Int × Option (List UInt8)) :=
  if ipstring.length < 7 ∨ 15 < ipstring.length then some (-1, ipv4)
  else
    match countDots ipstring 0 with
    | none => some (-1, ipv4)
    | some i => if i ≠ 3 then some (-1, ipv4) else storeNumbers 4 ipstring ipv4

/-! ## What an address is -/

/-- The texts between the dots. -/
def parts (s : List UInt8) : List (List UInt8) := s.splitOn 46

/-- A decimal number up to 255. -/
def IsNumber (part : List UInt8) : Prop :=
  part ≠ [] ∧ (∀ c ∈ part, isDigit c = true) ∧ decimal part ≤ 255

/-- Four numbers with dots between them, in 7 to 15 characters. -/
def IsAddress (s : List UInt8) : Prop :=
  7 ≤ s.length ∧ s.length ≤ 15 ∧ (parts s).length = 4 ∧ ∀ part ∈ parts s, IsNumber part

/-- The text gets to the third pass. -/
def Dotted (s : List UInt8) : Prop :=
  7 ≤ s.length ∧ s.length ≤ 15 ∧ (parts s).length = 4 ∧ ∀ part ∈ parts s, ∀ c ∈ part, isDigit c = true

/-- The third pass goes on behind this part. -/
def Stored (part : List UInt8) : Prop := part ≠ [] ∧ atoi part ≤ 255

instance (part : List UInt8) : Decidable (Stored part) := inferInstanceAs (Decidable (_ ∧ _))

/-- The numbers of the parts, as they are stored. -/
def numbers (ps : List (List UInt8)) : List UInt8 := ps.map fun part => lowByte (atoi part)

/-! ## Parts -/

theorem parts_cons_dot (s : List UInt8) : parts (46 :: s) = [] :: parts s := by
  simp [parts, List.splitOn_cons_eq_if_modifyHead]

theorem parts_cons_of_ne {c : UInt8} (h : c ≠ 46) (s : List UInt8) :
    parts (c :: s) = (parts s).modifyHead (c :: ·) := by
  simp [parts, List.splitOn_cons_eq_if_modifyHead, h]

theorem parts_of_notMem {s : List UInt8} (h : 46 ∉ s) : parts s = [s] := List.splitOn_eq_singleton h

/-- The first part, and the rest behind the first dot. -/
theorem parts_of_mem {s : List UInt8} (h : 46 ∈ s) :
    parts s = s.takeWhile (· != 46) :: parts (s.drop ((s.takeWhile (· != 46)).length + 1)) := by
  induction s with
  | nil => exact absurd h List.not_mem_nil
  | cons c s ih =>
    by_cases hc : c = 46
    · subst hc
      rw [parts_cons_dot]
      rfl
    · have hmem : 46 ∈ s := (List.mem_cons.mp h).resolve_left fun heq => hc heq.symm
      have htake : (c :: s).takeWhile (· != 46) = c :: s.takeWhile (· != 46) :=
        List.takeWhile_cons_of_pos (by simpa using hc)
      rw [parts_cons_of_ne hc, ih hmem, htake]
      rfl

theorem exists_parts (s : List UInt8) : ∃ p ps, parts s = p :: ps :=
  List.exists_cons_of_ne_nil (List.splitOn_ne_nil 46 s)

/-- The characters are those of the parts, and the dots. -/
theorem length_flatten_parts (s : List UInt8) :
    (parts s).flatten.length + (parts s).length = s.length + 1 := by
  induction s with
  | nil => rfl
  | cons c s ih =>
    by_cases hc : c = 46
    · subst hc
      rw [parts_cons_dot]
      simp only [List.flatten_cons, List.nil_append, List.length_cons]
      omega
    · obtain ⟨p, ps, hps⟩ := exists_parts s
      rw [hps] at ih
      rw [parts_cons_of_ne hc, hps]
      simp only [List.modifyHead_cons, List.flatten_cons, List.cons_append, List.length_cons] at ih ⊢
      omega

/-- The second pass counts the dots, and refuses what is not made of digits and dots. -/
theorem countDots_eq_some {s : List UInt8} {i n : Nat} :
    countDots s i = some n ↔
      n + 1 = i + (parts s).length ∧ ∀ part ∈ parts s, ∀ c ∈ part, isDigit c = true := by
  induction s generalizing i with
  | nil =>
    have hnil : parts [] = [[]] := rfl
    rw [countDots, hnil, Option.some.injEq]
    constructor
    · rintro rfl
      exact ⟨rfl, by simp⟩
    · rintro ⟨hlen, -⟩
      exact (Nat.add_right_cancel hlen).symm
  | cons c s ih =>
    obtain ⟨p, ps, hps⟩ := exists_parts s
    rw [countDots]
    by_cases hc : c = 46
    · rw [if_pos hc, ih, hc, parts_cons_dot]
      simp only [List.length_cons, List.forall_mem_cons, List.not_mem_nil, false_imp_iff, implies_true, true_and]
      rw [Nat.add_assoc, Nat.add_comm 1]
    · rw [if_neg hc, parts_cons_of_ne hc, hps]
      simp only [List.modifyHead_cons, List.length_cons, List.forall_mem_cons]
      split
      · next hdigit =>
        rw [ih, hps]
        simp only [List.length_cons, List.forall_mem_cons, hdigit, true_and]
      · next hdigit =>
        simp only [hdigit, Bool.false_eq_true, false_and, and_false, reduceCtorEq]

/-- What the first two passes let through. -/
theorem dotted_iff (s : List UInt8) :
    Dotted s ↔ ¬(s.length < 7 ∨ 15 < s.length) ∧ countDots s 0 = some 3 := by
  rw [countDots_eq_some]
  unfold Dotted
  constructor
  · rintro ⟨h7, h15, hlen, hdigits⟩
    exact ⟨by omega, by omega, hdigits⟩
  · rintro ⟨hlen, hcount, hdigits⟩
    exact ⟨by omega, by omega, by omega, hdigits⟩

/-! ## Numbers -/

theorem foldl_decimal_lt {digits : List UInt8} (hdigits : ∀ c ∈ digits, isDigit c = true) (n : Nat) :
    digits.foldl (fun n d => 10 * n + (d.toNat - 48)) n < (n + 1) * 10 ^ digits.length := by
  induction digits generalizing n with
  | nil => simp
  | cons d digits ih =>
    have hd : d.toNat - 48 ≤ 9 := by
      have hdigit := hdigits d List.mem_cons_self
      simp only [isDigit, Bool.and_eq_true, decide_eq_true_eq, UInt8.le_iff_toNat_le] at hdigit
      have h57 : (57 : UInt8).toNat = 57 := rfl
      omega
    have hstep : 10 * n + (d.toNat - 48) + 1 ≤ (n + 1) * 10 := by omega
    calc (d :: digits).foldl (fun n d => 10 * n + (d.toNat - 48)) n
        < (10 * n + (d.toNat - 48) + 1) * 10 ^ digits.length :=
          ih (fun c hc => hdigits c (List.mem_cons_of_mem d hc)) _
      _ ≤ (n + 1) * 10 * 10 ^ digits.length := Nat.mul_le_mul_right _ hstep
      _ = (n + 1) * 10 ^ (d :: digits).length := by
          rw [List.length_cons, Nat.pow_succ, Nat.mul_assoc, Nat.mul_comm 10]

/-- `atoi` reads what fits into an `int`. -/
theorem atoi_eq {part : List UInt8} (hne : part ≠ []) (hdigits : ∀ c ∈ part, isDigit c = true)
    (hlt : decimal part < 2147483648) : atoi part = decimal part := by
  have hscan : scanInt part = some (decimal part : Int) := by
    have hread : scanInt ([] ++ (part ++ [])) = _ :=
      scanInt_digits (fun b hb => absurd hb List.not_mem_nil) hne hdigits fun b hb => by cases hb
    rwa [List.nil_append, List.append_nil] at hread
  rw [atoi, hscan, Option.getD_some, toInt]
  rw [show max (-9223372036854775808) (min (decimal part : Int) 9223372036854775807) = decimal part by omega]
  exact Int.bmod_eq_of_le (by omega) (by omega)

/-- Among texts that are not empty each leaves at least one character to every other one. -/
theorem length_add_length_le {ps : List (List UInt8)} (hne : ∀ part ∈ ps, part ≠ []) {part : List UInt8}
    (hpart : part ∈ ps) : part.length + ps.length ≤ ps.flatten.length + 1 := by
  have hlen {ps : List (List UInt8)} (hne : ∀ part ∈ ps, part ≠ []) : ps.length ≤ ps.flatten.length := by
    induction ps with
    | nil => exact Nat.le_refl _
    | cons q ps ih =>
      have hq := List.length_pos_iff.mpr (hne q List.mem_cons_self)
      have hps := ih fun part hp => hne part (List.mem_cons_of_mem q hp)
      rw [List.flatten_cons, List.length_append, List.length_cons]
      omega
  induction ps with
  | nil => exact absurd hpart List.not_mem_nil
  | cons q ps ih =>
    have hps : ∀ part ∈ ps, part ≠ [] := fun part hp => hne part (List.mem_cons_of_mem q hp)
    have hq := List.length_pos_iff.mpr (hne q List.mem_cons_self)
    rw [List.flatten_cons, List.length_append, List.length_cons]
    rcases List.mem_cons.mp hpart with rfl | hmem
    · have hle := hlen hps
      omega
    · have hle := ih hps hmem
      omega

/-- Four parts in 15 characters have at most nine digits each when none is empty. -/
theorem length_part_le {s : List UInt8} (h : Dotted s) (hne : ∀ part ∈ parts s, part ≠ [])
    {part : List UInt8} (hpart : part ∈ parts s) : part.length ≤ 9 := by
  obtain ⟨-, h15, hlen, -⟩ := h
  have hsum := length_flatten_parts s
  have hle := length_add_length_le hne hpart
  omega

/-- On texts that get to the third pass, this pass goes through to the end for the addresses. -/
theorem forall_stored_iff {s : List UInt8} (h : Dotted s) :
    (∀ part ∈ parts s, Stored part) ↔ ∀ part ∈ parts s, IsNumber part := by
  have hdigits := h.2.2.2
  constructor
  · intro hstored part hpart
    have hlen := length_part_le h (fun p hp => (hstored p hp).1) hpart
    have hlt : decimal part < (0 + 1) * 10 ^ part.length := foldl_decimal_lt (hdigits part hpart) 0
    have hpow : 10 ^ part.length ≤ 10 ^ 9 := Nat.pow_le_pow_right (by decide) hlen
    have hvalue := atoi_eq (hstored part hpart).1 (hdigits part hpart) (by omega)
    have hle := (hstored part hpart).2
    exact ⟨(hstored part hpart).1, hdigits part hpart, by omega⟩
  · intro hnumber part hpart
    obtain ⟨hne, hdigit, hle⟩ := hnumber part hpart
    refine ⟨hne, ?_⟩
    rw [atoi_eq hne hdigit (by omega)]
    omega

theorem isAddress_iff (s : List UInt8) : IsAddress s ↔ Dotted s ∧ ∀ part ∈ parts s, Stored part := by
  constructor
  · rintro ⟨h7, h15, hlen, hnumber⟩
    have hdotted : Dotted s := ⟨h7, h15, hlen, fun part hp => (hnumber part hp).2.1⟩
    exact ⟨hdotted, (forall_stored_iff hdotted).mpr hnumber⟩
  · rintro ⟨hdotted, hstored⟩
    exact ⟨hdotted.1, hdotted.2.1, hdotted.2.2.1, (forall_stored_iff hdotted).mp hstored⟩

/-! ## The third pass -/

/-- One turn of the loop: the part up to the next dot, or up to the end for the last one. -/
theorem storeNumbers_succ {ptr part : List UInt8} {ps : List (List UInt8)} (hparts : parts ptr = part :: ps)
    (h15 : part.length < 15) (pv : Option (List UInt8)) :
    ∃ rest, (ps ≠ [] → parts rest = ps) ∧
      storeNumbers (ps.length + 1) ptr pv =
        if Stored part then
          storeNumbers ps.length rest
            (pv.map fun bytes => bytes.set (3 - ps.length) (lowByte (atoi part)))
        else some (-1, pv) := by
  have hiff : (255 < atoi part ∨ part.length = 0) ↔ ¬Stored part := by
    rw [Stored, not_and_or, not_not, List.length_eq_zero_iff, not_le, or_comm]
  by_cases hdot : 46 ∈ ptr
  · rw [parts_of_mem hdot, List.cons.injEq] at hparts
    obtain ⟨rfl, hrest⟩ := hparts
    have htake : ptr.take (ptr.takeWhile (· != 46)).length = ptr.takeWhile (· != 46) :=
      List.prefix_iff_eq_take.mp (List.takeWhile_prefix _) |>.symm
    refine ⟨_, fun _ => hrest, ?_⟩
    simp only [storeNumbers, if_pos hdot, htake, if_neg (Nat.not_le.mpr h15), hiff, ite_not]
  · rw [parts_of_notMem hdot, List.cons.injEq] at hparts
    obtain ⟨rfl, rfl⟩ := hparts
    refine ⟨ptr.drop (ptr.length + 1), fun hne => absurd rfl hne, ?_⟩
    simp only [storeNumbers, if_neg hdot, List.length_nil, List.take_length, if_neg (Nat.not_le.mpr h15), hiff,
      ite_not, Nat.sub_zero, if_true]

/-- What the loop leaves: the numbers up to the first one that is refused, before the bytes that it did not come to. -/
theorem storeNumbers_eq {ps : List (List UInt8)} {ptr : List UInt8} (hparts : ps ≠ [] → parts ptr = ps)
    (h15 : ∀ part ∈ ps, part.length < 15) {done : List UInt8} (hdone : done.length + ps.length = 4)
    {rest : Option (List UInt8)} (hrest : ∀ r ∈ rest, r.length = ps.length) :
    storeNumbers ps.length ptr (rest.map fun r => done ++ r) =
      some (if ∀ part ∈ ps, Stored part then 0 else -1,
        rest.map fun r =>
          done ++ (numbers (ps.takeWhile (Stored ·)) ++ r.drop (ps.takeWhile (Stored ·)).length)) := by
  induction ps generalizing ptr done rest with
  | nil => simp [storeNumbers, numbers]
  | cons part ps ih =>
    obtain ⟨ptr', hparts', hturn⟩ := storeNumbers_succ (hparts (List.cons_ne_nil part ps))
      (h15 part List.mem_cons_self) (rest.map fun r => done ++ r)
    rw [List.length_cons, hturn]
    by_cases hstored : Stored part
    · rw [if_pos hstored]
      rw [List.length_cons] at hdone
      -- the number takes the place of the first byte that is left
      have hset (r : List UInt8) (hr : r ∈ rest) :
          (done ++ r).set (3 - ps.length) (lowByte (atoi part)) =
            done ++ [lowByte (atoi part)] ++ r.tail := by
        obtain ⟨b, r, rfl⟩ := List.exists_cons_of_length_eq_add_one (hrest r hr)
        have hpos : 3 - ps.length = done.length := by omega
        rw [hpos, List.set_append_right _ _ (Nat.le_refl _), Nat.sub_self, List.append_assoc]
        rfl
      have htails : (rest.map fun r => done ++ r).map (fun bytes =>
          bytes.set (3 - ps.length) (lowByte (atoi part))) =
            (rest.map List.tail).map fun r => done ++ [lowByte (atoi part)] ++ r := by
        rw [Option.map_map, Option.map_map]
        exact Option.map_congr hset
      have hrest' (r : List UInt8) (hr : r ∈ rest.map List.tail) : r.length = ps.length := by
        obtain ⟨r', hr', rfl⟩ := Option.mem_map.mp hr
        rw [List.length_tail, hrest r' hr', List.length_cons, Nat.add_sub_cancel]
      have hdone' : (done ++ [lowByte (atoi part)]).length + ps.length = 4 := by
        rw [List.length_append, List.length_singleton]
        omega
      have hforall : (∀ p ∈ part :: ps, Stored p) ↔ ∀ p ∈ ps, Stored p := by
        rw [List.forall_mem_cons]
        exact and_iff_right hstored
      rw [htails, ih hparts' (fun p hp => h15 p (List.mem_cons_of_mem part hp)) hdone' hrest']
      rw [Option.map_map, List.takeWhile_cons_of_pos (by simpa using hstored)]
      simp only [hforall]
      refine congrArg (fun out => some (_, out)) (Option.map_congr fun r _ => ?_)
      simp [numbers]
    · rw [if_neg hstored, if_neg fun hall => hstored (hall part List.mem_cons_self),
        List.takeWhile_cons_of_neg (by simpa using hstored)]
      simp [numbers]

/-! ## The results -/

/-- What is refused before the third pass. -/
theorem toolsIpv4strcheck_of_not_dotted {ipstring : List UInt8} (h : ¬Dotted ipstring)
    (ipv4 : Option (List UInt8)) : toolsIpv4strcheck ipstring ipv4 = some (-1, ipv4) := by
  rw [dotted_iff, not_and] at h
  unfold toolsIpv4strcheck
  split
  · rfl
  · next hlen =>
    cases hcount : countDots ipstring 0 with
    | none => rfl
    | some i => exact if_pos fun h3 => h hlen (hcount.trans (congrArg some h3))

/-- What the third pass leaves. -/
theorem toolsIpv4strcheck_of_dotted {ipstring : List UInt8} (h : Dotted ipstring)
    {ipv4 : Option (List UInt8)} (h4 : ∀ bytes ∈ ipv4, bytes.length = 4) :
    toolsIpv4strcheck ipstring ipv4 =
      some (if ∀ part ∈ parts ipstring, Stored part then 0 else -1,
        ipv4.map fun bytes =>
          numbers ((parts ipstring).takeWhile (Stored ·)) ++
            bytes.drop ((parts ipstring).takeWhile (Stored ·)).length) := by
  obtain ⟨hlen, hcount⟩ := (dotted_iff ipstring).mp h
  have h15 (part : List UInt8) (hpart : part ∈ parts ipstring) : part.length < 15 := by
    have hsum := length_flatten_parts ipstring
    have hle := (List.sublist_flatten_of_mem hpart).length_le
    have hfour := h.2.2.1
    have hmax := h.2.1
    omega
  have hrun : storeNumbers (parts ipstring).length ipstring (ipv4.map fun r => [] ++ r) = _ :=
    storeNumbers_eq (fun _ => rfl) h15 (by rw [List.length_nil, h.2.2.1])
      fun r hr => (h4 r hr).trans h.2.2.1.symm
  rw [h.2.2.1] at hrun
  simp only [List.nil_append, Option.map_id'] at hrun
  rw [toolsIpv4strcheck, if_neg hlen, hcount]
  exact (if_neg (fun hne => hne rfl)).trans hrun

/-- The numbers of an address, as they are stored. -/
theorem numbers_of_isAddress {s : List UInt8} (h : IsAddress s) :
    numbers (parts s) = (parts s).map fun part => UInt8.ofNat (decimal part) := by
  apply List.map_congr_left
  intro part hpart
  obtain ⟨hne, hdigits, hle⟩ := h.2.2.2 part hpart
  rw [atoi_eq hne hdigits (by omega), lowByte]
  congr 1
  omega

/-- The outcome: `0` for the addresses, with their numbers in `*ipv4`, and `-1` for anything else. A text that is refused
before the third pass leaves `*ipv4` as it was; otherwise the numbers before the first one that is refused are there, and
nothing behind them has changed. -/
def Outcome (ipstring : List UInt8) (ipv4 : Option (List UInt8)) : Prop :=
  ∃ ret out, toolsIpv4strcheck ipstring ipv4 = some (ret, out) ∧
    (ret = 0 ↔ IsAddress ipstring) ∧ (ret ≠ 0 → ret = -1) ∧
    (ret = 0 → out = ipv4.map fun _ => (parts ipstring).map fun part => UInt8.ofNat (decimal part)) ∧
    (¬Dotted ipstring → out = ipv4) ∧
    (Dotted ipstring → out = ipv4.map fun bytes =>
      numbers ((parts ipstring).takeWhile (Stored ·)) ++
        bytes.drop ((parts ipstring).takeWhile (Stored ·)).length)

/-- It is this outcome for every text, with a null pointer or four bytes to store to. -/
theorem outcome_toolsIpv4strcheck (ipstring : List UInt8) {ipv4 : Option (List UInt8)}
    (h4 : ∀ bytes ∈ ipv4, bytes.length = 4) : Outcome ipstring ipv4 := by
  by_cases hdotted : Dotted ipstring
  · refine ⟨_, _, toolsIpv4strcheck_of_dotted hdotted h4, ?_, ?_, ?_, fun hn => absurd hdotted hn, fun _ => rfl⟩
    · rw [isAddress_iff, ite_eq_left_iff]
      refine ⟨fun h => ⟨hdotted, ?_⟩, fun h hn => absurd h.2 hn⟩
      by_contra hn
      exact absurd (h hn) (by decide)
    · intro hne
      exact if_neg fun hall => hne (if_pos hall)
    · intro h0
      have hall : ∀ part ∈ parts ipstring, Stored part := by
        by_contra hn
        rw [if_neg hn] at h0
        exact absurd h0 (by decide)
      have hwhole : (parts ipstring).takeWhile (Stored ·) = parts ipstring :=
        List.takeWhile_eq_self_iff.mpr fun part hpart => decide_eq_true (hall part hpart)
      refine Option.map_congr fun bytes hbytes => ?_
      have hover : bytes.drop (parts ipstring).length = [] :=
        List.drop_eq_nil_of_le (by rw [h4 bytes hbytes, hdotted.2.2.1])
      rw [hwhole, hover, List.append_nil]
      exact numbers_of_isAddress ((isAddress_iff ipstring).mpr ⟨hdotted, hall⟩)
  · have hnot : ¬IsAddress ipstring := fun h => hdotted ((isAddress_iff ipstring).mp h).1
    refine ⟨_, _, toolsIpv4strcheck_of_not_dotted hdotted ipv4, ?_, fun _ => rfl, fun h => ?_, fun _ => rfl,
      fun h => absurd h hdotted⟩
    · exact ⟨fun h => absurd h (by decide), fun h => absurd h hnot⟩
    · exact absurd h (by decide)

/-- "192.168.1.20". -/
def address : List UInt8 := [49, 57, 50, 46, 49, 54, 56, 46, 49, 46, 50, 48]

theorem outcome_toolsIpv4strcheck_address : Outcome address (some [0, 0, 0, 0]) :=
  outcome_toolsIpv4strcheck address fun bytes h => by cases h; rfl

/-- "1.2.3.256" is refused, and three numbers are stored. -/
theorem toolsIpv4strcheck_refused :
    toolsIpv4strcheck [49, 46, 50, 46, 51, 46, 50, 53, 54] (some [9, 9, 9, 9]) =
      some (-1, some [1, 2, 3, 9]) := by decide +kernel

end ProgrammingPath.Ipv4Check
