import ProgrammingPath.Flv.Container
import ProgrammingPath.Lib.DecoderRecord
import ProgrammingPath.Lib.EmulationPrevention

/-!
# What a decoder finds in the sequence headers

`flv_SendVideoSpsPps` and `flv_SendVideoSpsPpsVps` copy the parameter sets into an array of 1024 bytes. The
first gives each set its own length and bytes. The second gives the picture parameter set one zero byte too
many, and takes the fields on the profile from fixed places of the set as it came, where bytes against
emulation still stand.
-/

namespace ProgrammingPath.Flv

open ProgrammingPath.Lib

/-- A call stays in its array and writes one tag, with this record behind the five bytes on the packet. -/
def Emits {α : Type} (read : List UInt8 → Option α) (flv : FlvOut) (call : Option FlvOut) (record : α) :
    Prop :=
  ∃ flv' previousTagSize tagHeader tagData, call = some flv' ∧
    flv'.writes = flv.writes ++ [.tag previousTagSize tagHeader tagData] ∧
    read (tagData.drop 5) = some record

/-- `flv_SendVideoSpsPps` emits both parameter sets as they are. -/
def AvcRight (flv : FlvOut) (tm : Int) (heap : Mem) (sps pps : List UInt8) : Prop :=
  ∃ profile, Emits readAvcRecord flv (flvSendVideoSpsPps flv tm heap (some sps) (some pps))
    ⟨profile, [sps], [pps]⟩

/-- The fields on the profile and the level in a sequence parameter set of H.265: they stand behind the two
bytes of the header and one on the layers. -/
def profileOf (sps : List UInt8) : HevcProfile :=
  let rbsp := rbspOfNal sps
  ⟨rbsp.getD 3 0, (rbsp.drop 4).take 4, (rbsp.drop 8).take 6, rbsp.getD 14 0⟩

/-- The arrays of a record with these parameter sets. -/
def hevcArrays (vps sps pps : List UInt8) : List (Nat × List (List UInt8)) :=
  [(32, [vps]), (33, [sps]), (34, [pps])]

/-- `flv_SendVideoSpsPpsVps` emits the three parameter sets as they are, and the fields of the sequence
parameter set. -/
def HevcRight (flv : FlvOut) (tm : Int) (heap : Mem) (pps sps vps : List UInt8) : Prop :=
  Emits readHevcRecord flv (flvSendVideoSpsPpsVps flv tm heap (some pps) (some sps) (some vps))
    ⟨profileOf sps, hevcArrays vps sps pps⟩

/-- The fields that `flv_SendVideoSpsPpsVps` writes. -/
def writtenProfile (heap : Mem) (sps : List UInt8) : HevcProfile :=
  let sps' := memOf sps heap
  ⟨sps' 3, [sps' 4, sps' 5, sps' 6, 0], [sps' 8, sps' 9, sps' 10, 0, 0, 0], sps' 17⟩

/-- The set of a comment in the code: three bytes against emulation stand in front of the level, so that the
level is found, but one stands in front of the constraints, too. -/
def commentSps : List UInt8 :=
  [0x42, 0x01, 0x01, 0x01, 0x60, 0, 0, 0x03, 0, 0xb0, 0, 0, 0x03, 0, 0, 0x03, 0, 0x7b, 0xa0, 0x03, 0xc0, 0x80]

example : profileOf commentSps = ⟨0x01, [0x60, 0, 0, 0], [0xb0, 0, 0, 0, 0, 0], 0x7b⟩ := by decide +kernel

example (heap : Mem) : writtenProfile heap commentSps = ⟨0x01, [0x60, 0, 0, 0], [0, 0xb0, 0, 0, 0, 0], 0x7b⟩ :=
  rfl

section

variable {flv : FlvOut} {tm : Int} {heap : Mem} {sps pps vps : List UInt8}

/-- A call emits what a decoder reads in its body, if that has room. -/
theorem emits_inArray_iff {α : Type} {read : List UInt8 → Option α} {body : List UInt8} {record : α} :
    Emits read flv ((inArray body).map (flvOutTag flv 0x09 tm)) record ↔
      body.length ≤ 1024 ∧ read (body.drop 5) = some record := by
  rw [inArray]
  by_cases hroom : body.length ≤ 1024
  · rw [if_pos hroom, and_iff_right hroom, Option.map_some]
    constructor
    · rintro ⟨flv', previousTagSize, tagHeader, tagData, hcall, hwrites, hread⟩
      cases hcall
      have hlast := List.append_cancel_left hwrites
      cases hlast
      exact hread
    · exact fun hread => ⟨_, _, _, _, rfl, rfl, hread⟩
  · rw [if_neg hroom]
    refine iff_of_false ?_ fun h => hroom h.1
    rintro ⟨flv', _, _, _, hcall, -⟩
    cases hcall

/-- What the record of `flv_SendVideoSpsPps` says. -/
theorem readAvcRecord_spsPpsBody (hsps : sps.length < 256 ^ 2) (hpps : pps.length < 256 ^ 2) :
    readAvcRecord ((spsPpsBody heap sps pps).drop 5) =
      some ⟨[memOf sps heap 1, memOf sps heap 2, memOf sps heap 3], [sps], [pps]⟩ := by
  have hone : (0xe1 : UInt8).toNat % 32 = 1 := rfl
  have hlast : bigEndian 2 pps.length ++ pps = bigEndian 2 pps.length ++ (pps ++ []) := by
    rw [List.append_nil]
  rw [spsPpsBody, hlast]
  simp only [List.cons_append, List.nil_append, List.drop_succ_cons, List.drop_zero, readAvcRecord,
    hone]
  rw [readUnits_one hsps]
  show (readUnits 1 _).bind _ = _
  rw [readUnits_one hpps]
  rfl

/-- What the record of `flv_SendVideoSpsPpsVps` says. -/
theorem readHevcRecord_spsPpsVpsBody (hsps : sps.length < 256 ^ 2) (hpps : pps.length + 1 < 256 ^ 2)
    (hvps : vps.length < 256 ^ 2) :
    readHevcRecord ((spsPpsVpsBody heap sps pps vps).drop 5) =
      some ⟨writtenProfile heap sps, hevcArrays vps sps (pps ++ [0])⟩ := by
  have hlast : bigEndian 2 (pps.length + 1) ++ (pps ++ [0]) =
      bigEndian 2 (pps ++ [0]).length ++ ((pps ++ [0]) ++ []) := by
    rw [List.append_nil, List.length_append, List.length_singleton]
  have hpps' : (pps ++ [0]).length < 256 ^ 2 := by
    rw [List.length_append, List.length_singleton]
    exact hpps
  rw [spsPpsVpsBody, hlast]
  simp only [List.cons_append, List.nil_append, List.drop_succ_cons, List.drop_zero, readHevcRecord]
  rw [show (3 : UInt8).toNat = 2 + 1 from rfl, readArrays_one _ hvps, readArrays_one _ hsps,
    readArrays_one _ hpps']
  rfl

/-- **What a decoder finds.** The sets of H.264 come back when they have room. Those of H.265 never do: with
room, the picture parameter set has a zero byte behind it. -/
theorem parameterSets_emitted (flv : FlvOut) (tm : Int) (heap : Mem) (sps pps vps : List UInt8) :
    (AvcRight flv tm heap sps pps ↔ 16 + sps.length + pps.length ≤ 1024) ∧
    ¬HevcRight flv tm heap pps sps vps ∧
    ∀ record, Emits readHevcRecord flv
        (flvSendVideoSpsPpsVps flv tm heap (some pps) (some sps) (some vps)) record ↔
      44 + sps.length + pps.length + vps.length ≤ 1024 ∧
        record = ⟨writtenProfile heap sps, hevcArrays vps sps (pps ++ [0])⟩ := by
  have havc (record : AvcRecord) :
      Emits readAvcRecord flv (flvSendVideoSpsPps flv tm heap (some sps) (some pps)) record ↔
        16 + sps.length + pps.length ≤ 1024 ∧
          record = ⟨[memOf sps heap 1, memOf sps heap 2, memOf sps heap 3], [sps], [pps]⟩ := by
    refine emits_inArray_iff.trans ?_
    rw [length_spsPpsBody, show blockBytes (some pps) = pps from rfl]
    refine and_congr_right fun hroom => ?_
    rw [readAvcRecord_spsPpsBody (by omega) (by omega),
      Option.some.injEq]
    exact eq_comm
  have hhevc (record : HevcRecord) :
      Emits readHevcRecord flv
          (flvSendVideoSpsPpsVps flv tm heap (some pps) (some sps) (some vps)) record ↔
        44 + sps.length + pps.length + vps.length ≤ 1024 ∧
          record = ⟨writtenProfile heap sps, hevcArrays vps sps (pps ++ [0])⟩ := by
    refine emits_inArray_iff.trans ?_
    rw [length_spsPpsVpsBody, show blockBytes (some pps) = pps from rfl,
      show blockBytes (some vps) = vps from rfl]
    refine and_congr_right fun hroom => ?_
    rw [readHevcRecord_spsPpsVpsBody (by omega) (by omega) (by omega), Option.some.injEq]
    exact eq_comm
  refine ⟨⟨fun ⟨_, h⟩ => ((havc _).mp h).1, fun hroom => ⟨_, (havc _).mpr ⟨hroom, rfl⟩⟩⟩, ?_, hhevc⟩
  intro hright
  have hrecord := ((hhevc _).mp hright).2
  have hpps : pps = pps ++ [0] := by
    simpa [hevcArrays] using congrArg HevcRecord.arrays hrecord
  exact absurd (congrArg List.length hpps) (by simp)

end

/-- Short sets of H.265: the record has one byte more than the picture parameter set. -/
theorem not_hevcRight_short : ¬∀ (flv : FlvOut) (tm : Int) (heap : Mem) (sps pps vps : List UInt8),
    AvcRight flv tm heap sps pps ∧ HevcRight flv tm heap pps sps vps := by
  intro hall
  have hright : Emits readHevcRecord .built ((inArray (spsPpsVpsBody (fun _ => 0) commentSps [0x44, 0x01]
      [0x40, 0x01])).map (flvOutTag .built 0x09 0))
      ⟨profileOf commentSps, hevcArrays [0x40, 0x01] commentSps [0x44, 0x01]⟩ :=
    (hall .built 0 (fun _ => 0) commentSps [0x44, 0x01] [0x40, 0x01]).2
  have hread := (emits_inArray_iff.mp hright).2
  exact absurd hread (by decide +kernel)

end ProgrammingPath.Flv
