import Mathlib.Data.Nat.Digits.Lemmas
import ProgrammingPath.Service.CjProtoReader

/-!
# What the server reads of what it writes (`CJProto_server.c`)

`loop_handle_write` sets the highest bit of a byte of the length when bit 7 of what is left is set, not when
something is left, so a length is only read as it was written where all its digits but the lowest are odd, or
where the reader, which takes the length to be there, is interrupted just then. And the payload must not be
interrupted, unless the length has four bytes.
-/

namespace ProgrammingPath.CjProto

open ProgrammingPath.Lib

/-! ## The bytes of the length -/

theorem and_bit_pos (n : Nat) : n &&& 0x80 > 0 ↔ n / 128 % 2 = 1 := by
  have hand : n &&& 2 ^ 7 = (n.testBit 7).toNat * 2 ^ 7 := Nat.and_two_pow n 7
  have hbit : n.testBit 7 = decide (n / 2 ^ 7 % 2 = 1) := Nat.testBit_eq_decide_div_mod_eq
  show n &&& 2 ^ 7 > 0 ↔ n / 2 ^ 7 % 2 = 1
  rw [hand, hbit]
  by_cases h : n / 2 ^ 7 % 2 = 1
  · rw [decide_eq_true h]
    exact iff_of_true (by decide) h
  · rw [decide_eq_false h]
    exact iff_of_false (by decide) h

theorem lengthByte_eq (n : Nat) :
    lengthByte n = if n / 128 % 2 = 1 then UInt8.ofNat (n % 128) ||| 0x80 else UInt8.ofNat (n % 128) := by
  have hmod : n &&& 0x7F = n % 128 := Nat.and_two_pow_sub_one_eq_mod n 7
  unfold lengthByte
  rw [hmod]
  exact if_congr (and_bit_pos n) rfl rfl

theorem digit_bits : ∀ d < 128, (UInt8.ofNat d &&& 0x7F).toNat = d ∧ UInt8.ofNat d &&& 0x80 = 0 ∧
    ((UInt8.ofNat d ||| 0x80) &&& 0x7F).toNat = d ∧ (UInt8.ofNat d ||| 0x80) &&& 0x80 ≠ 0 := by decide +kernel

/-- What the reader makes of a byte of the length: its digit, and whether it goes on. -/
theorem lengthByte_bits (n : Nat) :
    (lengthByte n &&& 0x7F).toNat = n % 128 ∧ (lengthByte n &&& 0x80 ≠ 0 ↔ n / 128 % 2 = 1) := by
  obtain ⟨hlow, hclear, hlow', hset⟩ := digit_bits (n % 128) (Nat.mod_lt n (by decide))
  rw [lengthByte_eq]
  by_cases hodd : n / 128 % 2 = 1
  · rw [if_pos hodd]
    exact ⟨hlow', iff_of_true hset hodd⟩
  · rw [if_neg hodd]
    exact ⟨hlow, iff_of_false (not_not.mpr hclear) hodd⟩

/-- How many bytes the length of a packet should have. -/
def size (n : Nat) : Nat := (Nat.digits 128 n).length

theorem lt_size_iff {j n : Nat} : j < size n ↔ 128 ^ j ≤ n := Nat.lt_digits_length_iff (by decide) n

theorem lt_size_iff_div {j n : Nat} : j < size n ↔ n / 128 ^ j ≠ 0 := by
  rw [lt_size_iff, Nat.div_ne_zero_iff]
  exact ⟨fun h => ⟨Nat.ne_of_gt (Nat.pow_pos (by decide)), h⟩, And.right⟩

theorem length_lengthBytes (n : Nat) : (lengthBytes n).length = size n := by
  induction n using Nat.strong_induction_on with
  | _ n ih =>
    by_cases h : n = 0
    · rw [h, lengthBytes_zero]
      rfl
    · have hsize : size n = size (n / 128) + 1 := by
        unfold size
        rw [Nat.digits_def' (by decide) (Nat.pos_of_ne_zero h), List.length_cons]
      rw [lengthBytes_pos h, List.length_cons, ih (n / 128) (Nat.div_lt_self (Nat.pos_of_ne_zero h) (by decide)),
        hsize]

/-- The next digit is put in front of those that were read. -/
theorem digit_or {n j : Nat} : (n / 128 ^ j % 128) <<< (7 * j) ||| n % 128 ^ j = n % 128 ^ (j + 1) := by
  have hpow : 128 ^ j = 2 ^ (7 * j) := by rw [Nat.pow_mul]
  have hlt : n % 128 ^ j < 2 ^ (7 * j) := hpow ▸ Nat.mod_lt n (Nat.pow_pos (by decide))
  rw [← Nat.shiftLeft_add_eq_or_of_lt hlt, Nat.shiftLeft_eq, ← hpow, Nat.mod_pow_succ, Nat.mul_comm, Nat.add_comm]

/-! ## What a packet needs -/

/-- What the machine has to read for a packet of this length, from each phase: further digits of the length, and
the payload. -/
def Needs : Phase → Nat → Nat → Prop
  | .start, _, _ => True
  | .length _ digits value, n, left =>
    value < 128 ^ digits → ∃ c, 1 ≤ c ∧ n < 128 ^ (digits + c) ∧ c + n ≤ left
  | .payload _ digits value data, n, left =>
    value < 128 ^ digits → (n = value ∧ value ≤ data.length + left) ∨
      ∃ c, 1 ≤ c ∧ n < 128 ^ (digits + c) ∧ c + n ≤ left
  | .packet _ value _, n, _ => n = value

variable {type type' : UInt8} {n : Nat} {data data' payload : List UInt8} {phase : Phase}
  {events rest : List (Option UInt8)}

theorem needs_behind {digits value left : Nat} (h : Needs (.behind type digits value data) n left)
    (hvalue : value < 128 ^ digits) :
    (n = value ∧ value ≤ data.length + left) ∨ ∃ c, 1 ≤ c ∧ n < 128 ^ (digits + c) ∧ c + n ≤ left := by
  unfold Phase.behind at h
  by_cases hlen : data.length = value
  · rw [if_pos hlen] at h
    exact .inl ⟨h, by omega⟩
  · rw [if_neg hlen] at h
    exact h hvalue

theorem or_lt {digits value : Nat} (byte : UInt8) (hvalue : value < 128 ^ digits) :
    (byte &&& 0x7F).toNat <<< (7 * digits) ||| value < 128 ^ (digits + 1) := by
  have hpow : 128 ^ digits = 2 ^ (7 * digits) := by rw [Nat.pow_mul]
  have hlt : value < 2 ^ (7 * digits) := hpow ▸ hvalue
  have hdigit : (byte &&& 0x7F).toNat < 128 := by
    rw [UInt8.toNat_and]
    exact Nat.lt_of_le_of_lt Nat.and_le_right (by decide)
  rw [← Nat.shiftLeft_add_eq_or_of_lt hlt, Nat.shiftLeft_eq, ← hpow, Nat.pow_succ]
  have hmul : (byte &&& 0x7F).toNat * 128 ^ digits ≤ 127 * 128 ^ digits :=
    Nat.mul_le_mul_right _ (Nat.le_of_lt_succ hdigit)
  omega

theorem machine_needs (h : machine events phase = some ((type', n, data'), rest)) :
    Needs phase n (events.filterMap id).length := by
  induction events generalizing phase with
  | nil =>
    cases phase with
    | packet =>
      cases h
      rfl
    | _ => exact absurd h (Option.some_ne_none _).symm
  | cons event events ih =>
    cases phase with
    | start => trivial
    | packet =>
      cases h
      rfl
    | length type digits value =>
      intro hvalue
      cases event with
      | none =>
        have hsame : machine events (.length type digits value) = some ((type', n, data'), rest) := h
        exact ih hsame hvalue
      | some byte =>
        have hlt := or_lt byte hvalue
        have hlength : ((some byte :: events).filterMap id).length = (events.filterMap id).length + 1 := rfl
        have hnext : machine events (if byte &&& 0x80 ≠ 0 ∧ digits + 1 < 4 then
            .length type (digits + 1) ((byte &&& 0x7F).toNat <<< (7 * digits) ||| value)
            else .behind type (digits + 1) ((byte &&& 0x7F).toNat <<< (7 * digits) ||| value) []) =
            some ((type', n, data'), rest) := h
        rw [hlength]
        have hdone : (∃ c, 1 ≤ c ∧ n < 128 ^ (digits + 1 + c) ∧ c + n ≤ (events.filterMap id).length) →
            ∃ c, 1 ≤ c ∧ n < 128 ^ (digits + c) ∧ c + n ≤ (events.filterMap id).length + 1 := by
          rintro ⟨c, hc, hpow, hle⟩
          exact ⟨c + 1, Nat.le_add_left 1 c, by rwa [Nat.add_comm c 1, ← Nat.add_assoc], by omega⟩
        split at hnext
        · exact hdone (ih hnext hlt)
        · rcases needs_behind (ih hnext) hlt with ⟨rfl, hle⟩ | hmore
          · rw [List.length_nil, Nat.zero_add] at hle
            exact ⟨1, Nat.le_refl 1, hlt, by omega⟩
          · exact hdone hmore
    | payload type digits value data =>
      intro hvalue
      cases event with
      | none =>
        have hnext : machine events (if digits < 4 then .length type digits value
            else .payload type digits value data) = some ((type', n, data'), rest) := h
        split at hnext
        · exact .inr (ih hnext hvalue)
        · exact ih hnext hvalue
      | some byte =>
        have hlength : ((some byte :: events).filterMap id).length = (events.filterMap id).length + 1 := rfl
        have hnext : machine events (.behind type digits value (data ++ [byte])) =
            some ((type', n, data'), rest) := h
        rw [hlength]
        rcases needs_behind (ih hnext) hvalue with ⟨heq, hle⟩ | ⟨c, hc, hpow, hle⟩
        · rw [List.length_append, List.length_singleton] at hle
          exact .inl ⟨heq, by omega⟩
        · exact .inr ⟨c, hc, hpow, by omega⟩

/-! ## When it is the packet that was written -/

/-- The machine finds the packet, and nothing is left behind it. -/
def Finds (type : UInt8) (payload : List UInt8) (events : List (Option UInt8)) (phase : Phase) : Prop :=
  ∃ rest, machine events phase = some ((type, payload.length, payload), rest) ∧ rest.filterMap id = []

/-- Interruptions inside the payload, of which `left` bytes are left. -/
def Quiet (events : List (Option UInt8)) (left : Nat) : Prop := ∀ m < left, ¬AgainAt m events

/-- The payload is read if it is not interrupted, or the length had four bytes. -/
theorem finds_payload {digits : Nat} (hdigits : digits ≤ 4) (hn : payload.length < 128 ^ digits) {left : List UInt8}
    (hpayload : data ++ left = payload) (hleft : left ≠ []) (hevents : events.filterMap id = left) :
    Finds type payload events (.payload type digits payload.length data) ↔
      digits = 4 ∨ Quiet events left.length := by
  induction events generalizing data left with
  | nil => exact absurd hevents.symm hleft
  | cons event events ih =>
    have hlen : data.length + left.length = payload.length := by rw [← hpayload, List.length_append]
    have hpos := List.length_pos_of_ne_nil hleft
    cases event with
    | none =>
      have hevents' : events.filterMap id = left := hevents
      rcases Nat.lt_or_eq_of_le hdigits with hlt | rfl
      · -- the length goes on, and there are not enough bytes left
        have hquiet : ¬(digits = 4 ∨ Quiet (none :: events) left.length) := by
          rintro (h4 | hquiet)
          · omega
          · exact hquiet 0 hpos (.inl rfl)
        refine iff_of_false ?_ hquiet
        rintro ⟨rest, hmachine, -⟩
        have hnext : machine events (if digits < 4 then .length type digits payload.length
            else .payload type digits payload.length data) = _ := hmachine
        rw [if_pos hlt] at hnext
        obtain ⟨c, hc, -, hle⟩ := machine_needs hnext hn
        rw [hevents'] at hle
        omega
      · exact iff_of_true ((ih hpayload hleft hevents').mpr (.inl rfl)) (.inl rfl)
    | some byte =>
      obtain ⟨left, rfl⟩ : ∃ left', left = byte :: left' := ⟨events.filterMap id, hevents.symm⟩
      have hevents' : events.filterMap id = left := List.tail_eq_of_cons_eq hevents
      have happ : data ++ [byte] ++ left = payload := by rw [← hpayload, List.append_assoc, List.singleton_append]
      have hnext : Finds type payload (some byte :: events) (.payload type digits payload.length data) ↔
          Finds type payload events (.behind type digits payload.length (data ++ [byte])) := Iff.rfl
      have hquiet : Quiet (some byte :: events) (byte :: left).length ↔ Quiet events left.length := by
        constructor
        · exact fun hquiet m hm => hquiet (m + 1) (Nat.succ_lt_succ hm)
        · intro hquiet m hm
          cases m with
          | zero => exact id
          | succ m => exact hquiet m (Nat.lt_of_succ_lt_succ hm)
      rw [hnext, hquiet]
      cases left with
      | nil =>
        rw [List.append_nil] at happ
        refine iff_of_true ⟨events, ?_, hevents'⟩ (.inr fun m hm => absurd hm (Nat.not_lt_zero m))
        rw [happ, Phase.behind, if_pos rfl]
        exact machine_packet ..
      | cons b left =>
        have hmore : (data ++ [byte]).length < payload.length := by
          have hsum : (data ++ [byte]).length + (b :: left).length = payload.length := by
            rw [← List.length_append, happ]
          exact hsum ▸ Nat.lt_add_of_pos_right (Nat.succ_pos _)
        rw [behind_of_lt hmore]
        exact ih happ (List.cons_ne_nil _ _) hevents'

/-- The places behind the digits from `j` on, in the number `n`: the digit that comes next is odd, or the reader,
which has something to wait for, is interrupted there. -/
def Places (n j : Nat) (events : List (Option UInt8)) : Prop :=
  ∀ i, j < i → 128 ^ i ≤ n → n / 128 ^ i % 2 = 1 ∨ n % 128 ^ i ≠ 0 ∧ AgainAt (i - j) events

/-- The payload behind the digits from `j` on: not interrupted, unless there are four digits. -/
def Undisturbed (n j : Nat) (events : List (Option UInt8)) : Prop :=
  size n = 4 ∨ ∀ m, size n - j ≤ m → m < size n - j + n → ¬AgainAt m events

theorem again_none {m : Nat} (hm : m ≠ 0) : AgainAt m (none :: events) ↔ AgainAt m events := or_iff_right hm

theorem places_none {j : Nat} : Places n j (none :: events) ↔ Places n j events := by
  refine forall_congr' fun i => imp_congr_right fun hi => imp_congr_right fun _ => ?_
  rw [again_none (Nat.sub_ne_zero_of_lt hi)]

theorem undisturbed_none {j : Nat} (hj : j < size n) : Undisturbed n j (none :: events) ↔ Undisturbed n j events := by
  refine or_congr_right (forall_congr' fun m => imp_congr_right fun hm => ?_)
  rw [again_none (Nat.ne_of_gt (Nat.lt_of_lt_of_le (Nat.sub_pos_of_lt hj) hm))]

/-- The place behind one more digit. -/
theorem places_some {j : Nat} {byte : UInt8} (hj : j + 1 < size n) :
    Places n j (some byte :: events) ↔
      (n / 128 ^ (j + 1) % 2 = 1 ∨ n % 128 ^ (j + 1) ≠ 0 ∧ AgainAt 0 events) ∧ Places n (j + 1) events := by
  have hshift {i : Nat} (hi : j + 1 < i) : AgainAt (i - j) (some byte :: events) ↔ AgainAt (i - (j + 1)) events := by
    have heq : i - j = i - (j + 1) + 1 := by omega
    rw [heq]
    exact Iff.rfl
  have hfirst : AgainAt (j + 1 - j) (some byte :: events) ↔ AgainAt 0 events := by
    rw [Nat.add_sub_cancel_left]
    exact Iff.rfl
  constructor
  · intro hplaces
    refine ⟨?_, fun i hi hle => ?_⟩
    · rw [← hfirst]
      exact hplaces (j + 1) (Nat.lt_succ_self j) (lt_size_iff.mp hj)
    · rw [← hshift hi]
      exact hplaces i (Nat.lt_of_succ_lt hi) hle
  · rintro ⟨hplace, hplaces⟩ i hi hle
    rcases Nat.lt_or_eq_of_le (Nat.succ_le_of_lt hi) with hlt | rfl
    · rw [hshift hlt]
      exact hplaces i hlt hle
    · rw [hfirst]
      exact hplace

theorem undisturbed_some {j : Nat} {byte : UInt8} (hj : j < size n) :
    Undisturbed n j (some byte :: events) ↔ Undisturbed n (j + 1) events := by
  refine or_congr_right ⟨fun h m hm hlt => h (m + 1) (by omega) (by omega), fun h m hm hlt => ?_⟩
  cases m with
  | zero => omega
  | succ m => exact h m (by omega) (by omega)

/-- A byte of the length that was read as payload is missing: too few are left for the number. -/
theorem not_finds_skipped {j : Nat} (hj : j < size payload.length)
    (hevents : events.filterMap id = lengthBytes (payload.length / 128 ^ (j + 1)) ++ payload) :
    ¬Finds type payload events (.behind type j (payload.length % 128 ^ j) data) := by
  rintro ⟨rest, hmachine, -⟩
  have hpow : 0 < 128 ^ j := Nat.pow_pos (by decide)
  have hvalue : payload.length % 128 ^ j < 128 ^ j := Nat.mod_lt _ hpow
  rcases needs_behind (machine_needs hmachine) hvalue with ⟨heq, -⟩ | ⟨c, hc, hlt, hle⟩
  · have hle := lt_size_iff.mp hj
    omega
  · rw [hevents, List.length_append, length_lengthBytes] at hle
    have hdigits : c - 1 < size (payload.length / 128 ^ (j + 1)) := by omega
    have hmul := (Nat.le_div_iff_mul_le (Nat.pow_pos (by decide))).mp (lt_size_iff.mp hdigits)
    rw [← Nat.pow_add] at hmul
    have hsum : c - 1 + (j + 1) = j + c := by omega
    rw [hsum] at hmul
    omega

/-- **The length.** Behind some digits, and where the reader takes the length to be there, although it is not. -/
theorem finds_length (hsmall : payload.length < 2 ^ 28) {j : Nat} (hj : j < size payload.length)
    (hevents : events.filterMap id = lengthBytes (payload.length / 128 ^ j) ++ payload) :
    (Finds type payload events (.length type j (payload.length % 128 ^ j)) ↔
      Places payload.length j events ∧ Undisturbed payload.length j events) ∧
    (payload.length % 128 ^ j ≠ 0 →
      (Finds type payload events (.payload type j (payload.length % 128 ^ j) []) ↔
        AgainAt 0 events ∧ Places payload.length j events ∧ Undisturbed payload.length j events)) := by
  have hsize : size payload.length ≤ 4 := by
    by_contra hlt
    have hpow := lt_size_iff.mp (Nat.lt_of_not_le hlt)
    omega
  induction events generalizing j with
  | nil =>
    have hcons := lengthBytes_pos (lt_size_iff_div.mp hj)
    rw [hcons] at hevents
    exact absurd hevents.symm (List.cons_ne_nil _ _)
  | cons event events ih =>
    cases event with
    | none =>
      have hevents' : events.filterMap id = lengthBytes (payload.length / 128 ^ j) ++ payload := hevents
      obtain ⟨hlength, -⟩ := ih hj hevents'
      rw [places_none, undisturbed_none hj, ← hlength]
      refine ⟨Iff.rfl, fun _ => ?_⟩
      have hnext : Finds type payload (none :: events) (.payload type j (payload.length % 128 ^ j) []) ↔
          Finds type payload events (if j < 4 then .length type j (payload.length % 128 ^ j)
            else .payload type j (payload.length % 128 ^ j) []) := Iff.rfl
      rw [hnext, if_pos (Nat.lt_of_lt_of_le hj hsize)]
      exact ⟨fun h => ⟨.inl rfl, h⟩, And.right⟩
    | some byte =>
      have hq : payload.length / 128 ^ j / 128 = payload.length / 128 ^ (j + 1) := by
        rw [Nat.div_div_eq_div_mul, Nat.pow_succ]
      have hcons := lengthBytes_pos (lt_size_iff_div.mp hj)
      rw [hcons, hq] at hevents
      have hbyte : byte = lengthByte (payload.length / 128 ^ j) := List.head_eq_of_cons_eq hevents
      have hevents' : events.filterMap id = lengthBytes (payload.length / 128 ^ (j + 1)) ++ payload :=
        List.tail_eq_of_cons_eq hevents
      obtain ⟨hdigit, hmore⟩ := lengthByte_bits (payload.length / 128 ^ j)
      rw [← hbyte] at hdigit hmore
      rw [hq] at hmore
      refine ⟨?_, fun _ => iff_of_false (not_finds_skipped hj hevents') fun h => h.1⟩
      have hnext : Finds type payload (some byte :: events) (.length type j (payload.length % 128 ^ j)) ↔
          Finds type payload events (if byte &&& 0x80 ≠ 0 ∧ j + 1 < 4 then
            .length type (j + 1) ((byte &&& 0x7F).toNat <<< (7 * j) ||| payload.length % 128 ^ j)
            else .behind type (j + 1) ((byte &&& 0x7F).toNat <<< (7 * j) ||| payload.length % 128 ^ j) []) := Iff.rfl
      rw [hnext, hdigit, digit_or, if_congr (and_congr_left' hmore) rfl rfl, undisturbed_some hj]
      by_cases hlast : j + 1 < size payload.length
      · rw [places_some hlast]
        obtain ⟨hlength, hwaits⟩ := ih hlast hevents'
        have hfour : j + 1 < 4 := Nat.lt_of_lt_of_le hlast hsize
        by_cases hodd : payload.length / 128 ^ (j + 1) % 2 = 1
        · rw [if_pos ⟨hodd, hfour⟩, hlength]
          exact ⟨fun h => ⟨⟨.inl hodd, h.1⟩, h.2⟩, fun h => ⟨h.1.2, h.2⟩⟩
        · rw [if_neg fun h => hodd h.1, or_iff_right hodd]
          by_cases hzero : payload.length % 128 ^ (j + 1) = 0
          · -- the reader takes the payload for empty
            refine iff_of_false ?_ fun h => h.1.1.1 hzero
            rw [hzero]
            rintro ⟨rest, hmachine, -⟩
            have hpacket : machine events (.behind type (j + 1) 0 []) = some ((type, 0, []), events) :=
              machine_packet ..
            have hlen : 0 = payload.length :=
              congrArg (fun r => r.1.2.1) (Option.some.inj (hpacket.symm.trans hmachine))
            rw [← hlen] at hlast
            exact absurd hlast (Nat.not_lt_zero _)
          · rw [behind_of_lt (Nat.pos_of_ne_zero hzero), hwaits hzero]
            exact ⟨fun h => ⟨⟨⟨hzero, h.1⟩, h.2.1⟩, h.2.2⟩, fun h => ⟨h.1.1.2, h.1.2, h.2⟩⟩
      · -- this was the last digit
        have hdigits : size payload.length = j + 1 := by omega
        have hlt : payload.length < 128 ^ (j + 1) := Nat.lt_of_not_le fun hle => hlast (lt_size_iff.mpr hle)
        have hne : payload ≠ [] := by
          rintro rfl
          exact absurd hj (Nat.not_lt_zero j)
        have hzero : payload.length / 128 ^ (j + 1) = 0 := Nat.div_eq_of_lt hlt
        rw [hzero, lengthBytes_zero, List.nil_append] at hevents'
        rw [if_neg fun h => absurd h.1 (by rw [hzero]; decide), Nat.mod_eq_of_lt hlt,
          behind_of_lt (List.length_pos_of_ne_nil hne),
          finds_payload (by omega) hlt (List.nil_append payload) hne hevents']
        have hplaces : Places payload.length j (some byte :: events) := fun i hi hle =>
          absurd (lt_size_iff.mpr hle) (by omega)
        have hquiet : Undisturbed payload.length (j + 1) events ↔ j + 1 = 4 ∨ Quiet events payload.length := by
          unfold Undisturbed Quiet
          rw [hdigits, Nat.sub_self, Nat.zero_add]
          exact or_congr_right ⟨fun h m hm => h m (Nat.zero_le m) hm, fun h m _ hm => h m hm⟩
        rw [hquiet]
        exact ⟨fun h => ⟨hplaces, h⟩, And.right⟩

/-- When a packet with a payload of `n` bytes is read as it was written, for what happens at the socket. It has a
payload. Behind each byte of the length but the last, the next digit is odd, or the digits so far are not all 0
and the reader is interrupted there. And it is not interrupted from the last byte of the length on, before the
last byte of the payload, or the length has four bytes. -/
def Agrees (n : Nat) (events : List (Option UInt8)) : Prop :=
  n ≠ 0 ∧
  (∀ i, 0 < i → 128 ^ i ≤ n → n / 128 ^ i % 2 = 1 ∨ n % 128 ^ i ≠ 0 ∧ AgainAt (i + 1) events) ∧
  (2 ^ 21 ≤ n ∨ ∀ m, size n < m → m ≤ size n + n → ¬AgainAt m events)

theorem agrees_none : Agrees n (none :: events) ↔ Agrees n events := by
  refine and_congr_right fun _ => and_congr ?_ (or_congr_right ?_)
  · refine forall_congr' fun i => imp_congr_right fun _ => imp_congr_right fun _ => ?_
    rw [again_none (Nat.succ_ne_zero i)]
  · refine forall_congr' fun m => imp_congr_right fun hm => ?_
    rw [again_none (Nat.ne_of_gt (Nat.zero_lt_of_lt hm))]

theorem agrees_some (hsmall : n < 2 ^ 28) (byte : UInt8) :
    Agrees n (some byte :: events) ↔ n ≠ 0 ∧ Places n 0 events ∧ Undisturbed n 0 events := by
  refine and_congr_right fun _ => and_congr Iff.rfl (or_congr ?_ ⟨fun h m hm hlt => ?_, fun h m hm hle => ?_⟩)
  · have hsize : ¬4 < size n := fun hlt => absurd (lt_size_iff.mp hlt) (by omega)
    have hfour : 3 < size n ↔ 2 ^ 21 ≤ n := lt_size_iff
    omega
  · exact h (m + 1) (by omega) (by omega)
  · cases m with
    | zero => omega
    | succ m => exact h m (by omega) (by omega)

/-- The machine from the start on. -/
theorem finds_start (hsmall : payload.length < 2 ^ 28)
    (hevents : events.filterMap id = type :: (lengthBytes payload.length ++ payload)) :
    Finds type payload events .start ↔ Agrees payload.length events := by
  induction events with
  | nil => exact absurd hevents.symm (List.cons_ne_nil _ _)
  | cons event events ih =>
    cases event with
    | none =>
      rw [agrees_none]
      exact ih hevents
    | some byte =>
      have hbyte : byte = type := List.head_eq_of_cons_eq hevents
      have hevents' : events.filterMap id = lengthBytes payload.length ++ payload := List.tail_eq_of_cons_eq hevents
      subst hbyte
      have hnext : Finds byte payload (some byte :: events) .start ↔ Finds byte payload events (.length byte 0 0) :=
        Iff.rfl
      rw [hnext, agrees_some hsmall]
      by_cases hzero : payload.length = 0
      · -- no byte of the length was written
        refine iff_of_false ?_ fun h => h.1 hzero
        rintro ⟨rest, hmachine, -⟩
        obtain ⟨c, hc, -, hle⟩ := machine_needs hmachine (Nat.one_pos)
        rw [hevents', List.length_append, length_lengthBytes, hzero] at hle
        have hsize : size 0 = 0 := rfl
        omega
      · have hpow : 128 ^ 0 ≤ payload.length := Nat.one_le_iff_ne_zero.mpr hzero
        have hdiv : payload.length / 128 ^ 0 = payload.length := Nat.div_one _
        have hmod : payload.length % 128 ^ 0 = 0 := Nat.mod_one _
        have hlength : Finds byte payload events (.length byte 0 (payload.length % 128 ^ 0)) ↔ _ :=
          (finds_length hsmall (lt_size_iff.mpr hpow) (hdiv.symm ▸ hevents')).1
        rw [hmod] at hlength
        rw [hlength]
        exact ⟨fun h => ⟨hzero, h⟩, And.right⟩

theorem waits_zero : Packet.zero.Waits .start := rfl

/-- A letter, with its length, in two pieces. -/
def letter : Sock := ⟨[.again, .bytes [1], .again, .bytes [1, 65]], false⟩

theorem letter_steady : letter.Steady := by
  unfold Sock.Steady Sock.Sound
  decide

theorem writes_letter : writes 2 [⟨1, 1, [65], 1, 0, 0⟩] [.took 1, .again, .took 1] = ([1, 1], []) := rfl

/-- The same letter, with an interruption before it. -/
def interrupted : Sock := ⟨[.bytes [1, 1], .again, .bytes [65]], false⟩

end ProgrammingPath.CjProto
