import ProgrammingPath.Lib.TableCrc
import ProgrammingPath.Mes.Net

/-!
# What a frame guards, and how its header is read

Two questions about the frames of `NetCSCP/mespack.cpp`:

* which changes the checksum notices. The low bytes of `crc16_tab` are a permutation, so by
  `Lib.TableCrc` every change of one byte or of two adjacent bytes of the covered part is seen.
* whether `parse` reads the header as `parseReadBuff` does. `parseReadBuff` takes both bytes of a
  word as unsigned, `parse` only the high one; and `parse` takes the body from the size of the
  array, which goes wrong where the frame has no data at all.
-/

namespace ProgrammingPath.Mes

open ProgrammingPath.Qt ProgrammingPath.Lib

/-! ## The checksum -/

/-- The table as a function of the byte. -/
def crcEntry (b : UInt8) : UInt16 := crc16Tab.getD b.toNat 0

theorem crc_eq (bytes : QByteArray) : crc bytes = bytes.foldl (TableCrc.step crcEntry) 0 := rfl

theorem length_crc16Tab : crc16Tab.length = 256 := by decide +kernel

theorem lowBits_crc16Tab : TableCrc.lowBits crc16Tab = 2 ^ 256 - 1 := by decide +kernel

theorem lowInjective_crcEntry : TableCrc.LowInjective crcEntry :=
  TableCrc.lowInjective_of_lowBits length_crc16Tab lowBits_crc16Tab

namespace MESPack

variable {p : MESPack}

/-- A change in the part that the checksum covers. -/
theorem covered_set {frame : QByteArray} {i : Nat} (b : UInt8) (h1 : 1 ≤ i) :
    covered (frame.set i b) = (covered frame).set (i - 1) b := by
  obtain ⟨i, rfl⟩ : ∃ j, i = j + 1 := ⟨i - 1, by omega⟩
  cases frame with
  | nil => rfl
  | cons h t => simp [covered, List.take_set]

/-- `parse` compares the checksum of the covered part with the last two bytes. -/
theorem checkFlag_of_covered_ne {frame frame' : QByteArray} (h : (parse frame).checkFlag = true)
    (hlast : (parse frame').checkSum = (parse frame).checkSum)
    (hne : crc (covered frame') ≠ crc (covered frame)) : (parse frame').checkFlag = false := by
  have heq : crc (covered frame) = (parse frame).checkSum := by
    simpa [parse] using h
  show (crc (covered frame') == (parse frame').checkSum) = false
  rw [hlast, ← heq]
  exact beq_eq_false_iff_ne.mpr hne

/-- The last two bytes are where they were after a change before them. -/
theorem checkSum_set {frame : QByteArray} {i : Nat} (b : UInt8) (hi : i + 3 ≤ frame.length) :
    (parse (frame.set i b)).checkSum = (parse frame).checkSum := by
  have hget : ∀ j, i < j → (frame.set i b).getD j 0 = frame.getD j 0 := by
    intro j hj
    rw [List.getD_eq_getElem?_getD, List.getD_eq_getElem?_getD, List.getElem?_set_ne (by omega)]
  simp only [parse, List.length_set]
  rw [hget _ (by omega), hget _ (by omega)]

theorem length_covered {frame : QByteArray} : (covered frame).length = frame.length - 3 := by
  simp [covered]
  omega

theorem getElem_covered {frame : QByteArray} {i : Nat} (hi : i < (covered frame).length) :
    (covered frame)[i] = frame.getD (i + 1) 0 := by
  have hlt : i + 1 < frame.length := by
    rw [length_covered] at hi
    omega
  rw [List.getD_eq_getElem _ _ hlt]
  simp [covered]

/-- One byte of the covered part changed. -/
theorem checkFlag_set {frame : QByteArray} {i : Nat} {b : UInt8}
    (h : (parse frame).checkFlag = true) (h1 : 1 ≤ i) (hi : i + 3 ≤ frame.length)
    (hne : frame.getD i 0 ≠ b) : (parse (frame.set i b)).checkFlag = false := by
  refine checkFlag_of_covered_ne h (checkSum_set b hi) ?_
  rw [covered_set b h1, crc_eq, crc_eq]
  have hlt : i - 1 < (covered frame).length := by
    rw [length_covered]
    omega
  refine TableCrc.foldl_set_ne lowInjective_crcEntry hlt ?_
  rw [getElem_covered hlt, Nat.sub_add_cancel h1]
  exact hne

/-- Two adjacent bytes of the covered part changed. -/
theorem checkFlag_set_set {frame : QByteArray} {i : Nat} {b₁ b₂ : UInt8}
    (h : (parse frame).checkFlag = true) (h1 : 1 ≤ i) (hi : i + 4 ≤ frame.length)
    (hne : (frame.getD i 0, frame.getD (i + 1) 0) ≠ (b₁, b₂)) :
    (parse ((frame.set i b₁).set (i + 1) b₂)).checkFlag = false := by
  have hsum : (parse ((frame.set i b₁).set (i + 1) b₂)).checkSum = (parse frame).checkSum := by
    rw [checkSum_set b₂ (by rw [List.length_set]; omega), checkSum_set b₁ (by omega)]
  refine checkFlag_of_covered_ne h hsum ?_
  have hpos : i + 1 - 1 = i - 1 + 1 := by omega
  rw [covered_set b₂ (by omega), covered_set b₁ h1, hpos, crc_eq, crc_eq]
  have hlt : i - 1 + 1 < (covered frame).length := by
    rw [length_covered]
    omega
  refine TableCrc.foldl_set_set_ne lowInjective_crcEntry hlt ?_
  rw [getElem_covered (by omega), getElem_covered hlt, Nat.sub_add_cancel h1]
  exact hne

/-- What is built is read back; and a frame in which one byte, or two adjacent bytes, between the
head and the checksum were changed is told from it. -/
theorem parse_toByteArray_guards (h : p.body.length ≤ 65534) :
    ((parse p.toByteArray).cmdSerial = p.cmdSerial ∧ (parse p.toByteArray).body = p.body ∧
      (parse p.toByteArray).checkFlag = true) ∧
    (∀ i b, 1 ≤ i → i ≤ p.toByteArray.length - 3 → p.toByteArray.getD i 0 ≠ b →
      (parse (p.toByteArray.set i b)).checkFlag = false) ∧
    (∀ i b₁ b₂, 1 ≤ i → i + 1 ≤ p.toByteArray.length - 3 →
      (p.toByteArray.getD i 0, p.toByteArray.getD (i + 1) 0) ≠ (b₁, b₂) →
      (parse ((p.toByteArray.set i b₁).set (i + 1) b₂)).checkFlag = false) := by
  have hread := parse_toByteArray h
  refine ⟨hread, ?_, ?_⟩
  · intro i b h1 hi hne
    exact checkFlag_set hread.2.2 h1 (by omega) hne
  · intro i b₁ b₂ h1 hi hne
    exact checkFlag_set_set hread.2.2 h1 (by omega) hne

/-- A frame with one byte of data, which is then changed. -/
theorem parse_toByteArray_guards_note :
    (parse (({ cmdSerial := 0x14, body := [0x01] } : MESPack).toByteArray.set 6 0x81)).checkFlag =
      false :=
  (parse_toByteArray_guards (p := { cmdSerial := 0x14, body := [0x01] }) (by decide)).2.1 6 0x81
    (by decide) (by decide) (by decide)

end MESPack

/-! ## The header -/

/-- A low byte that `parse` reads as `parseReadBuff` does: its sign is clear, or what the sign
extension sets is set already. -/
def WordAgrees (lo hi : UInt8) : Prop := lo < 0x80 ∨ hi = 0xFF

instance (lo hi : UInt8) : Decidable (WordAgrees lo hi) := inferInstanceAs (Decidable (_ ∨ _))

theorem toUInt16_toInt8 (b : UInt8) :
    b.toInt8.toInt16.toUInt16 = if b < 0x80 then b.toUInt16 else 0xFF00 ||| b.toUInt16 := by
  have hall : ∀ b : Fin 256, (UInt8.ofFin b).toInt8.toInt16.toUInt16 =
      if UInt8.ofFin b < 0x80 then (UInt8.ofFin b).toUInt16
      else 0xFF00 ||| (UInt8.ofFin b).toUInt16 := by
    decide +kernel
  exact hall b.toFin

theorem toNat_or_bytes (hi lo : UInt8) :
    ((hi.toUInt16 <<< 8) ||| lo.toUInt16).toNat = leWord lo hi := by
  have hlo := lo.toNat_lt
  have hhi := hi.toNat_lt
  have hshift : (hi.toUInt16 <<< 8).toNat = hi.toNat <<< 8 := by
    simp [Nat.shiftLeft_eq]
    omega
  rw [UInt16.toNat_or, hshift, UInt8.toNat_toUInt16, ← Nat.shiftLeft_add_eq_or_of_lt hlo, leWord,
    Nat.shiftLeft_eq]

/-- `parse` and `parseReadBuff` read the same word. -/
theorem toNat_signedWord_eq_iff (lo hi : UInt8) :
    (MESPack.signedWord lo hi).toNat = leWord lo hi ↔ WordAgrees lo hi := by
  unfold MESPack.signedWord WordAgrees
  rw [toUInt16_toInt8]
  by_cases hlo : lo < 0x80
  · rw [if_pos hlo, toNat_or_bytes]
    exact iff_of_true rfl (.inl hlo)
  · -- the sign extension turns the high byte into ones
    have hones : hi.toUInt16 <<< 8 ||| (0xFF00 : UInt16) = (0xFF : UInt8).toUInt16 <<< 8 := by
      have hall : ∀ b : Fin 256, (UInt8.ofFin b).toUInt16 <<< 8 ||| (0xFF00 : UInt16) =
          (0xFF : UInt8).toUInt16 <<< 8 := by
        decide +kernel
      exact hall hi.toFin
    rw [if_neg hlo, ← UInt16.or_assoc, hones, toNat_or_bytes]
    constructor
    · intro h
      refine .inr (UInt8.toNat_inj.mp ?_)
      simp only [leWord] at h
      have h255 : (0xFF : UInt8).toNat = 255 := rfl
      omega
    · rintro (h | h)
      · exact absurd h hlo
      · rw [h]

namespace Net

/-- DATA LEN of the frame that starts at `head`, as `parseReadBuff` reads it. -/
def dataLen (buff : QByteArray) (head : Nat) : Nat :=
  leWord (buff.getD (head + 3) 0) (buff.getD (head + 4) 0)

/-- The packet has what stands in the frame that starts at `head`: both words of the header, and
the DATA bytes, all of them and no others, as command and body. -/
@[mk_iff] structure Agrees (buff : QByteArray) (head : Nat) (pack : MESPack) : Prop where
  func : pack.func.toNat = leWord (buff.getD (head + 1) 0) (buff.getD (head + 2) 0)
  length : pack.length.toNat = dataLen buff head
  size : pack.length.toNat = 1 + pack.body.length
  data : pack.cmdSerial :: pack.body = (buff.drop (head + 5)).take (dataLen buff head)

instance (buff : QByteArray) (head : Nat) (pack : MESPack) : Decidable (Agrees buff head pack) :=
  decidable_of_iff' _ (agrees_iff buff head pack)

variable {buff : QByteArray} {head stop : Nat}

/-- A frame that is cut out ends where its header says, inside the buffer. -/
theorem stop_of_framePosition (h : framePosition buff = some (head, stop)) :
    stop = head + 7 + dataLen buff head ∧ stop ≤ buff.length := by
  unfold framePosition at h
  simp only at h
  split at h
  · cases h
  · split at h
    · cases h
    · split at h
      · cases h
      · next hlen =>
        cases h
        refine ⟨?_, by omega⟩
        unfold dataLen
        omega

theorem getD_cut {i : Nat} (hi : head + i < stop) :
    ((buff.drop head).take (stop - head)).getD i 0 = buff.getD (head + i) 0 := by
  rw [List.getD_eq_getElem?_getD, List.getElem?_take_of_lt (by omega), List.getElem?_drop,
    List.getD_eq_getElem?_getD]

/-- With DATA to read, command and body are the DATA bytes. -/
theorem data_parse (h : framePosition buff = some (head, stop)) (hlen : dataLen buff head ≠ 0) :
    let pack := MESPack.parse ((buff.drop head).take (stop - head))
    pack.cmdSerial :: pack.body = (buff.drop (head + 5)).take (dataLen buff head) := by
  obtain ⟨hstop, hend⟩ := stop_of_framePosition h
  have hcut : ((buff.drop head).take (stop - head)).length = 7 + dataLen buff head := by
    rw [List.length_take_of_le (by rw [List.length_drop]; omega)]
    omega
  show ((buff.drop head).take (stop - head)).getD 5 0 ::
    QByteArray.mid ((buff.drop head).take (stop - head)) 6
      ((((buff.drop head).take (stop - head)).length : Int) - 6 - 2) = _
  rw [getD_cut (by omega), hcut]
  unfold QByteArray.mid
  rw [if_neg (by omega), if_neg (by omega)]
  have hbody : ((7 + dataLen buff head : Nat) - 6 - 2 : Int).toNat = dataLen buff head - 1 := by
    omega
  have hlt : head + 5 < buff.length := by omega
  obtain ⟨n, hn⟩ : ∃ n, dataLen buff head = n + 1 := ⟨dataLen buff head - 1, by omega⟩
  rw [hbody, List.drop_eq_getElem_cons hlt, hn, List.take_succ_cons, List.getD_eq_getElem _ _ hlt,
    List.drop_take, List.drop_drop, List.take_take]
  congr 2
  · omega

/-- A frame without DATA: the first byte of the checksum is taken as the command, and the second
as the body. -/
theorem data_parse_of_dataLen_eq_zero (h : framePosition buff = some (head, stop))
    (hlen : dataLen buff head = 0) :
    (MESPack.parse ((buff.drop head).take (stop - head))).body.length = 1 := by
  obtain ⟨hstop, hend⟩ := stop_of_framePosition h
  have hcut : ((buff.drop head).take (stop - head)).length = 7 := by
    rw [List.length_take_of_le (by rw [List.length_drop]; omega)]
    omega
  show (QByteArray.mid ((buff.drop head).take (stop - head)) 6
    ((((buff.drop head).take (stop - head)).length : Int) - 6 - 2)).length = 1
  rw [hcut]
  unfold QByteArray.mid
  rw [if_neg (by omega), if_pos (by omega), List.length_drop, hcut]
  rfl

/-- When extraction and parsing of a frame agree: it has DATA, and neither word of its header is
one that the sign of its low byte changes. -/
theorem agrees_parse_iff (h : framePosition buff = some (head, stop)) :
    Agrees buff head (MESPack.parse ((buff.drop head).take (stop - head))) ↔
      dataLen buff head ≠ 0 ∧ WordAgrees (buff.getD (head + 1) 0) (buff.getD (head + 2) 0) ∧
        WordAgrees (buff.getD (head + 3) 0) (buff.getD (head + 4) 0) := by
  obtain ⟨hstop, hend⟩ := stop_of_framePosition h
  have hfunc : (MESPack.parse ((buff.drop head).take (stop - head))).func =
      MESPack.signedWord (buff.getD (head + 1) 0) (buff.getD (head + 2) 0) := by
    show MESPack.signedWord _ _ = _
    rw [getD_cut (by omega), getD_cut (by omega)]
  have hlength : (MESPack.parse ((buff.drop head).take (stop - head))).length =
      MESPack.signedWord (buff.getD (head + 3) 0) (buff.getD (head + 4) 0) := by
    show MESPack.signedWord _ _ = _
    rw [getD_cut (by omega), getD_cut (by omega)]
  constructor
  · intro hagrees
    refine ⟨?_, ?_, ?_⟩
    · intro hzero
      have hsize := hagrees.size
      rw [hagrees.length, data_parse_of_dataLen_eq_zero h hzero, hzero] at hsize
      omega
    · rw [← toNat_signedWord_eq_iff, ← hfunc]
      exact hagrees.func
    · rw [← toNat_signedWord_eq_iff, ← hlength]
      exact hagrees.length
  · rintro ⟨hdata, hwf, hwl⟩
    have hlen : (MESPack.parse ((buff.drop head).take (stop - head))).length.toNat =
        dataLen buff head := by
      rw [hlength]
      exact (toNat_signedWord_eq_iff _ _).mpr hwl
    have hbytes := data_parse h hdata
    refine ⟨?_, hlen, ?_, hbytes⟩
    · rw [hfunc]
      exact (toNat_signedWord_eq_iff _ _).mpr hwf
    · have hsize := congrArg List.length hbytes
      rw [List.length_cons, List.length_take_of_le (by rw [List.length_drop]; omega)] at hsize
      rw [hlen]
      omega

/-- A frame of one byte of data. -/
theorem agrees_parse_iff_heartbeat :
    Agrees [0x00, 0x5A, 0x00, 0x00, 0x01, 0x00, 0x97, 0x00, 0x00] 1
      (MESPack.parse [0x5A, 0x00, 0x00, 0x01, 0x00, 0x97, 0x00, 0x00]) :=
  (@agrees_parse_iff [0x00, 0x5A, 0x00, 0x00, 0x01, 0x00, 0x97, 0x00, 0x00] 1 9 (by decide)).mpr
    (by decide)

/-- A frame with 128 bytes of data, whose length is read as `0xFF80`. -/
theorem not_agrees_long :
    ¬ ∀ buff head stop, framePosition buff = some (head, stop) →
      Agrees buff head (MESPack.parse ((buff.drop head).take (stop - head))) := by
  intro hall
  have h := hall ([0x5A, 0x00, 0x00, 0x80, 0x00] ++ List.replicate 130 0x00) 0 135
    (by decide +kernel)
  exact absurd h.length (by decide +kernel)

end Net

end ProgrammingPath.Mes
