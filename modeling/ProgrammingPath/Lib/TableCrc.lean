import Mathlib.Algebra.Group.Nat.Defs
import Mathlib.Data.Fintype.EquivFin
import Mathlib.Data.List.GetD

/-!
# Checksums of 16 bits computed byte by byte from a table

The register is shifted up by one byte in each round, and the byte that falls out chooses, together
with the byte read, the word of the table that is added. When the low bytes of the table are a
permutation, nothing is lost in two rounds: the register and the two bytes read can be told from
the register afterwards. So every change that is confined to two neighbouring bytes is seen,
however long the text is. The table need not come from a polynomial for that.
-/

namespace ProgrammingPath.Lib.TableCrc

/-- One round: `crc = tab[(crc >> 8) ^ b] ^ (crc << 8)`. -/
def step (tab : UInt8 → UInt16) (c : UInt16) (b : UInt8) : UInt16 :=
  tab ((c >>> 8).toUInt8 ^^^ b) ^^^ (c <<< 8)

/-- The low bytes of the table are a permutation. -/
def LowInjective (tab : UInt8 → UInt16) : Prop := Function.Injective fun b => (tab b).toUInt8

variable {tab : UInt8 → UInt16} {c c' : UInt16} {b b' : UInt8}

/-! ## The table -/

/-- The low bytes of some words, each as a bit. -/
def lowBits (words : List UInt16) : Nat := words.foldl (fun bits w => bits ||| 2 ^ w.toUInt8.toNat) 0

theorem testBit_foldl_lowBits (words : List UInt16) (bits k : Nat) :
    (words.foldl (fun bits w => bits ||| 2 ^ w.toUInt8.toNat) bits).testBit k = true ↔
      bits.testBit k = true ∨ ∃ w ∈ words, w.toUInt8.toNat = k := by
  induction words generalizing bits with
  | nil => simp
  | cons w words ih =>
    rw [List.foldl_cons, ih, Nat.testBit_or, Nat.testBit_two_pow]
    simp [or_assoc]

/-- A table of 256 words in which no low byte is missing has no low byte twice. -/
theorem lowInjective_of_lowBits {words : List UInt16} (hlen : words.length = 256)
    (hbits : lowBits words = 2 ^ 256 - 1) : LowInjective fun b => words.getD b.toNat 0 := by
  have hfinite : Finite UInt8 := Finite.of_injective UInt8.toFin fun _ _ h => UInt8.toFin_inj.mp h
  apply Finite.injective_iff_surjective.mpr
  intro c
  have hc : (lowBits words).testBit c.toNat = true := by
    rw [hbits, Nat.testBit_two_pow_sub_one]
    exact decide_eq_true c.toNat_lt
  obtain hzero | ⟨w, hw, hwc⟩ := (testBit_foldl_lowBits words 0 _).mp hc
  · rw [Nat.zero_testBit] at hzero
    cases hzero
  · obtain ⟨i, hi, rfl⟩ := List.mem_iff_getElem.mp hw
    refine ⟨UInt8.ofNat i, ?_⟩
    have hmod : i % 2 ^ 8 = i := Nat.mod_eq_of_lt (by omega)
    show (words.getD (UInt8.ofNat i).toNat 0).toUInt8 = c
    rw [UInt8.toNat_ofNat', hmod, List.getD_eq_getElem _ _ hi]
    exact UInt8.toNat_inj.mp hwc

/-! ## Rounds -/

/-- A word is its two bytes. -/
theorem ext_bytes (hhi : (c >>> 8).toUInt8 = (c' >>> 8).toUInt8) (hlo : c.toUInt8 = c'.toUInt8) :
    c = c' := by
  have hhi' := congrArg UInt8.toNat hhi
  have hlo' := congrArg UInt8.toNat hlo
  simp only [UInt16.toNat_toUInt8, UInt16.toNat_shiftRight, Nat.shiftRight_eq_div_pow] at hhi' hlo'
  have hc := c.toNat_lt
  have hc' := c'.toNat_lt
  apply UInt16.toNat_inj.mp
  simp at hhi'
  omega

/-- Shifting up by a byte leaves nothing in the low byte. -/
theorem toUInt8_shiftLeft (c : UInt16) : (c <<< 8).toUInt8 = 0 := by
  apply UInt8.toNat_inj.mp
  simp [Nat.shiftLeft_eq]

/-- The low byte after a round is that of the table's word. -/
theorem toUInt8_step : (step tab c b).toUInt8 = (tab ((c >>> 8).toUInt8 ^^^ b)).toUInt8 := by
  simp [step, toUInt8_shiftLeft]

/-- What shifting up keeps is the low byte. -/
theorem toUInt8_eq_of_shiftLeft_eq (h : c <<< 8 = c' <<< 8) : c.toUInt8 = c'.toUInt8 := by
  have h' := congrArg UInt16.toNat h
  apply UInt8.toNat_inj.mp
  simp [Nat.shiftLeft_eq] at h' ⊢
  omega

/-- What one round keeps: the entry of the table that was used, and the low byte. -/
theorem of_step_eq (htab : LowInjective tab) (h : step tab c b = step tab c' b') :
    (c >>> 8).toUInt8 ^^^ b = (c' >>> 8).toUInt8 ^^^ b' ∧ c.toUInt8 = c'.toUInt8 := by
  have hentry : (c >>> 8).toUInt8 ^^^ b = (c' >>> 8).toUInt8 ^^^ b' := by
    apply htab
    show (tab _).toUInt8 = (tab _).toUInt8
    rw [← toUInt8_step, h, toUInt8_step]
  refine ⟨hentry, toUInt8_eq_of_shiftLeft_eq ?_⟩
  unfold step at h
  rw [hentry] at h
  exact (UInt16.xor_right_inj _).mp h

/-- A round with the same byte keeps different registers apart. -/
theorem step_left_injective (htab : LowInjective tab) (b : UInt8) :
    Function.Injective fun c => step tab c b := by
  intro c c' h
  obtain ⟨hentry, hlo⟩ := of_step_eq htab h
  exact ext_bytes ((UInt8.xor_left_inj _).mp hentry) hlo

/-- Two rounds from the same register tell the two bytes read. -/
theorem step_step_inj (htab : LowInjective tab) {b₁ b₂ b₁' b₂' : UInt8}
    (h : step tab (step tab c b₁) b₂ = step tab (step tab c b₁') b₂') : b₁ = b₁' ∧ b₂ = b₂' := by
  obtain ⟨hentry, hlo⟩ := of_step_eq htab h
  -- the low byte left by the first round names the first byte
  have hfirst : b₁ = b₁' := by
    rw [toUInt8_step, toUInt8_step] at hlo
    exact (UInt8.xor_right_inj _).mp (htab hlo)
  subst hfirst
  exact ⟨rfl, (UInt8.xor_right_inj _).mp hentry⟩

/-- Rounds over the same bytes keep different registers apart. -/
theorem foldl_injective (htab : LowInjective tab) (l : List UInt8) :
    Function.Injective fun c => l.foldl (step tab) c := by
  induction l with
  | nil => exact fun _ _ h => h
  | cons b l ih => exact ih.comp (step_left_injective htab b)

/-- A text in which one byte was changed has another checksum. -/
theorem foldl_set_ne (htab : LowInjective tab) {l : List UInt8} {i : Nat} (hi : i < l.length)
    (hne : l[i] ≠ b) : (l.set i b).foldl (step tab) c ≠ l.foldl (step tab) c := by
  intro h
  have hsplit : l = l.take i ++ l[i] :: l.drop (i + 1) := by
    rw [List.getElem_cons_drop, List.take_append_drop]
  have hset : l.set i b = l.take i ++ b :: l.drop (i + 1) := by
    rw [List.set_eq_take_append_cons_drop, if_pos hi]
  rw [hset, congrArg (List.foldl (step tab) c) hsplit] at h
  simp only [List.foldl_append, List.foldl_cons] at h
  have hstep := foldl_injective htab _ h
  exact hne ((UInt8.xor_right_inj _).mp (of_step_eq htab hstep).1).symm

/-- A text in which two neighbouring bytes were changed has another checksum. -/
theorem foldl_set_set_ne (htab : LowInjective tab) {l : List UInt8} {i : Nat}
    (hi : i + 1 < l.length) (hne : (l[i], l[i + 1]) ≠ (b, b')) :
    ((l.set i b).set (i + 1) b').foldl (step tab) c ≠ l.foldl (step tab) c := by
  intro h
  have hsplit : l = l.take i ++ l[i] :: l[i + 1] :: l.drop (i + 2) := by
    rw [List.getElem_cons_drop, List.getElem_cons_drop, List.take_append_drop]
  have hset : (l.set i b).set (i + 1) b' = l.take i ++ b :: b' :: l.drop (i + 2) := by
    have hlen : (l.take i).length = i := List.length_take_of_le (by omega)
    rw [congrArg (fun l => (l.set i b).set (i + 1) b') hsplit]
    rw [List.set_append_right _ _ (by omega), hlen, List.set_append_right _ _ (by omega), hlen,
      Nat.sub_self, Nat.add_sub_cancel_left]
    rfl
  rw [hset, congrArg (List.foldl (step tab) c) hsplit] at h
  simp only [List.foldl_append, List.foldl_cons] at h
  obtain ⟨h₁, h₂⟩ := step_step_inj htab (foldl_injective htab _ h)
  exact hne (Prod.ext h₁.symm h₂.symm)

end ProgrammingPath.Lib.TableCrc
