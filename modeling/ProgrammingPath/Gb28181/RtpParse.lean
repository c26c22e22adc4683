import ProgrammingPath.Gb28181.PsAccess

/-!
# What `rtp_parse` hands to the parser

The payload of an RTP packet stands behind a fixed header of twelve bytes, the identifiers of contributing
sources and an extension, and in front of the padding. `rtp_parse` looks at the extension only, behind the
fixed header, and ends where the packet ends.
-/

namespace ProgrammingPath.Gb28181

open ProgrammingPath.Lib

/-- `rtp_parse` of a packet at 0: the two pointers that `ps_parse_loop` gets, if it is called. -/
def rtpParse (mem : Mem) (size : Nat) : Option (Int × Int) :=
  let extension := mem 0 &&& 0x10
  let payloadType := mem 1 &&& 0x7F
  let rtpExLength := ntohsAt (mem.bytes 12 4) 2
  let pnext : Int := if extension ≠ 0 then 12 + 2 + 2 + 4 * rtpExLength else 12
  if payloadType = 96 then some (pnext, size) else none

/-! ## Packets -/

/-- Four bytes. -/
structure Word where
  b0 : UInt8
  b1 : UInt8
  b2 : UInt8
  b3 : UInt8
  deriving DecidableEq, Repr

def Word.bytes (w : Word) : List UInt8 := [w.b0, w.b1, w.b2, w.b3]

/-- The low half of a word in network order. -/
def Word.low (w : Word) : Nat := w.b2.toNat * 256 + w.b3.toNat

/-- An extension header: the two bytes of its profile and its words. -/
structure Extension where
  p0 : UInt8
  p1 : UInt8
  words : List Word
  words_lt : words.length < 65536

def wordsBytes (words : List Word) : List UInt8 := words.flatMap Word.bytes

def Extension.bytes (x : Extension) : List UInt8 := x.p0 :: x.p1 :: (htons x.words.length ++ wordsBytes x.words)

/-- A packet of version 2 with payload type 96. Behind the second byte of the fixed header there are the
sequence number, the time stamp and the source. The last byte of the padding says how long it is. -/
structure RtpPacket where
  marker : Bool
  fixed : List UInt8
  csrc : List Word
  extension : Option Extension
  payload : List UInt8
  padding : Option (List UInt8)
  fixed_length : fixed.length = 10
  csrc_le : csrc.length < 16
  padding_lt : ∀ filler ∈ padding, filler.length < 255

namespace RtpPacket

variable (p : RtpPacket)

def first : UInt8 :=
  UInt8.ofNat (0x80 + (if p.padding.isSome then 0x20 else 0) + (if p.extension.isSome then 0x10 else 0) +
    p.csrc.length)

def second : UInt8 := if p.marker then 0xE0 else 0x60

/-- The bytes of the padding, with the one on its length. -/
def paddingBytes : List UInt8 :=
  match p.padding with
  | none => []
  | some filler => filler ++ [UInt8.ofNat (filler.length + 1)]

def extensionBytes : List UInt8 :=
  match p.extension with
  | none => []
  | some x => x.bytes

/-- Everything in front of the payload. -/
def head : List UInt8 := p.first :: p.second :: (p.fixed ++ (wordsBytes p.csrc ++ p.extensionBytes))

def bytes : List UInt8 := p.head ++ (p.payload ++ p.paddingBytes)

/-- The parser gets the places of the payload and no others, whatever lies around the packet. -/
def HandsOver : Prop :=
  ∀ mem : Mem, mem.bytes 0 p.bytes.length = p.bytes →
    ∃ pnext pend, rtpParse mem p.bytes.length = some (pnext, pend) ∧
      ∀ i, (pnext ≤ i ∧ i < pend) ↔
        (p.head.length : Int) ≤ i ∧ i < (p.head.length + p.payload.length : Nat)

/-- The length of the extension as `rtp_parse` reads it: from the first word behind the fixed header. -/
def readLength (x : Extension) : Nat :=
  match p.csrc with
  | [] => x.words.length
  | w :: _ => w.low

/-- How many bytes `rtp_parse` passes over. -/
def passedOver : Nat :=
  match p.extension with
  | none => 12
  | some x => 16 + 4 * p.readLength x

end RtpPacket

section

variable {p : RtpPacket} {mem : Mem}

theorem length_wordsBytes (words : List Word) : (wordsBytes words).length = 4 * words.length := by
  induction words with
  | nil => rfl
  | cons w words ih =>
    show (w.bytes ++ wordsBytes words).length = _
    rw [List.length_append, ih, List.length_cons, Word.bytes]
    simp only [List.length_cons, List.length_nil]
    omega

theorem length_extensionBytes : p.extensionBytes.length =
    match p.extension with
    | none => 0
    | some x => 4 + 4 * x.words.length := by
  rw [RtpPacket.extensionBytes]
  cases p.extension with
  | none => rfl
  | some x =>
    simp only [Extension.bytes, List.length_cons, List.length_append, length_wordsBytes, htons,
      List.length_nil]
    omega

theorem length_head : p.head.length = 12 + 4 * p.csrc.length + p.extensionBytes.length := by
  simp only [RtpPacket.head, List.length_cons, List.length_append, length_wordsBytes, p.fixed_length]
  omega

/-- The flag for an extension, with any count of sources. -/
theorem extension_flag : ∀ n < 16, ∀ padded extended : Bool,
    UInt8.ofNat (0x80 + (if padded then 0x20 else 0) + (if extended then 0x10 else 0) + n) &&& 0x10 ≠ 0 ↔
      extended = true := by
  decide +kernel

theorem second_payloadType : p.second &&& 0x7F = 96 := by
  rw [RtpPacket.second]
  cases p.marker <;> decide

/-- What stands behind the fixed header, as `rtp_parse` reads the length of an extension there. -/
theorem ntohsAt_behind {x : Extension} (hx : p.extension = some x) (rest : List UInt8) :
    ntohsAt (wordsBytes p.csrc ++ p.extensionBytes ++ rest) 2 = p.readLength x := by
  rw [RtpPacket.readLength, RtpPacket.extensionBytes, hx]
  cases p.csrc with
  | nil =>
    have hlt := x.words_lt
    simp only [wordsBytes, List.flatMap_nil, List.nil_append, Extension.bytes, List.cons_append, ntohsAt,
      htons, List.getD_cons_succ, List.getD_cons_zero, UInt8.toNat_ofNat']
    omega
  | cons w words =>
    simp only [wordsBytes, List.flatMap_cons, Word.bytes, List.cons_append, ntohsAt, List.getD_cons_succ,
      List.getD_cons_zero, Word.low]

theorem length_bytes : p.bytes.length = p.head.length + p.payload.length + p.paddingBytes.length := by
  rw [RtpPacket.bytes, List.length_append, List.length_append, Nat.add_assoc]

/-- What `rtp_parse` hands over of a packet. -/
theorem rtpParse_packet (hmem : mem.bytes 0 p.bytes.length = p.bytes) :
    rtpParse mem p.bytes.length = some ((p.passedOver : Int), (p.bytes.length : Int)) := by
  have hlen := length_bytes (p := p)
  have hhead := length_head (p := p)
  have hbyte {i : Nat} (hi : i < p.bytes.length) : mem i = p.bytes.getD i 0 := by
    rw [← hmem, Mem.getD_bytes mem hi, Int.zero_add]
  have hfirst : mem 0 = p.first := hbyte (i := 0) (by omega)
  have hsecond : mem 1 = p.second := hbyte (i := 1) (by omega)
  have hflag : p.first &&& 0x10 ≠ 0 ↔ p.extension.isSome = true :=
    extension_flag _ p.csrc_le p.padding.isSome p.extension.isSome
  rw [rtpParse, hfirst, hsecond, if_pos second_payloadType, RtpPacket.passedOver]
  cases hx : p.extension with
  | none =>
    rw [hx] at hflag
    rw [if_neg (hflag.not.mpr (by decide))]
    rfl
  | some x =>
    rw [hx] at hflag
    rw [if_pos (hflag.mpr rfl)]
    have hext : p.extensionBytes.length = 4 + 4 * x.words.length := by
      rw [length_extensionBytes, hx]
    have hbehind : p.bytes.drop 12 = wordsBytes p.csrc ++ p.extensionBytes ++ (p.payload ++ p.paddingBytes) := by
      have hsplit : p.bytes = (p.first :: p.second :: p.fixed) ++
          (wordsBytes p.csrc ++ p.extensionBytes ++ (p.payload ++ p.paddingBytes)) := by
        simp only [RtpPacket.bytes, RtpPacket.head, List.cons_append, List.append_assoc]
      rw [hsplit]
      exact List.drop_left' (by rw [List.length_cons, List.length_cons, p.fixed_length])
    have hread : ntohsAt (mem.bytes 12 4) 2 = p.readLength x := by
      rw [← ntohsAt_behind hx, ← hbehind, ← hmem, Mem.drop_bytes, ntohsAt, ntohsAt,
        Mem.getD_bytes _ (by omega), Mem.getD_bytes _ (by omega), Mem.getD_bytes _ (by omega),
        Mem.getD_bytes _ (by omega)]
      rfl
    rw [hread]
    simp only [Option.some.injEq, Prod.mk.injEq, and_true]
    omega

/-- Two ranges have the same places. -/
theorem same_range_iff {a b c d : Int} :
    (∀ i, (a ≤ i ∧ i < b) ↔ c ≤ i ∧ i < d) ↔ (a = c ∧ b = d) ∨ (b ≤ a ∧ d ≤ c) := by
  constructor
  · intro h
    have ha := h a
    have hb := h (b - 1)
    have hc := h c
    have hd := h (d - 1)
    omega
  · intro h i
    omega

theorem length_paddingBytes_eq_zero : p.paddingBytes.length = 0 ↔ p.padding = none := by
  rw [RtpPacket.paddingBytes]
  cases p.padding with
  | none => exact iff_of_true rfl rfl
  | some filler => simp

/-- The places are those of the payload when the head is passed over and there is no padding, or when there
are none. -/
theorem handsOver_iff_passedOver :
    p.HandsOver ↔ (p.passedOver = p.head.length ∧ p.paddingBytes.length = 0) ∨
      (p.payload.length = 0 ∧ p.bytes.length ≤ p.passedOver) := by
  have hlen := length_bytes (p := p)
  have hranges : p.HandsOver ↔ ∀ i : Int, ((p.passedOver : Int) ≤ i ∧ i < (p.bytes.length : Int)) ↔
      (p.head.length : Int) ≤ i ∧ i < (p.head.length + p.payload.length : Nat) := by
    constructor
    · intro h
      obtain ⟨pnext, pend, hparse, hrange⟩ := h (Mem.zero.write 0 p.bytes) (Mem.bytes_write_self _)
      rw [rtpParse_packet (Mem.bytes_write_self _), Option.some.injEq, Prod.mk.injEq] at hparse
      rw [hparse.1, hparse.2]
      exact hrange
    · exact fun h mem hmem => ⟨_, _, rtpParse_packet hmem, h⟩
  rw [hranges, same_range_iff]
  omega

/-- **When the parser gets the payload.** There is no padding, and either no contributing source, or the low
half of the first one says by chance how long the sources and the extension are together. Of a packet without
payload nothing is handed over also when that half says more than the packet has. -/
theorem handsOver_iff (p : RtpPacket) :
    p.HandsOver ↔
      (p.padding = none ∧ (p.csrc = [] ∨ ∃ w ∈ p.csrc.head?, ∃ x ∈ p.extension,
        w.low = p.csrc.length + x.words.length)) ∨
      (p.payload = [] ∧ ∃ w ∈ p.csrc.head?, ∃ x ∈ p.extension,
        4 * (p.csrc.length + x.words.length) + p.paddingBytes.length ≤ 4 * w.low) := by
  have hlen := length_bytes (p := p)
  have hhead := length_head (p := p)
  have hext := length_extensionBytes (p := p)
  rw [handsOver_iff_passedOver, ← length_paddingBytes_eq_zero, ← List.length_eq_zero_iff (l := p.payload),
    RtpPacket.passedOver]
  cases hx : p.extension with
  | none =>
    rw [hx] at hext
    cases hcsrc : p.csrc with
    | nil =>
      rw [hcsrc] at hhead
      simp only [List.length_nil] at hhead hext
      simp only [List.head?_nil, Option.mem_def, reduceCtorEq, List.length_nil, zero_add, false_and,
        exists_false, and_self, or_false, and_true, and_false]
      omega
    | cons w ws =>
      rw [hcsrc] at hhead
      simp only [List.length_cons] at hhead hext
      simp only [reduceCtorEq, List.head?_cons, Option.mem_def, Option.some.injEq, List.length_cons,
        false_and, exists_false, and_false, or_self, iff_false, not_or, not_and, not_le]
      omega
  | some x =>
    rw [hx] at hext
    simp only at hext
    cases hcsrc : p.csrc with
    | nil =>
      rw [hcsrc] at hhead
      simp only [List.length_nil] at hhead
      simp only [RtpPacket.readLength, hcsrc, List.head?_nil, Option.mem_def, reduceCtorEq,
        Option.some.injEq, List.length_nil, zero_add, exists_eq_left', false_and, exists_false, or_false,
        and_true, and_false]
      omega
    | cons w ws =>
      rw [hcsrc] at hhead
      simp only [List.length_cons] at hhead
      simp only [RtpPacket.readLength, hcsrc, reduceCtorEq, List.head?_cons, Option.mem_def,
        Option.some.injEq, List.length_cons, exists_eq_left', false_or]
      omega

end

/-- The sequence number, the time stamp and the source of a packet. -/
def tenBytes : List UInt8 := [0, 1, 0, 0, 0, 0, 0, 0, 0, 0]

theorem tenBytes_length : tenBytes.length = 10 := by decide

/-- A packet with one contributing source, whose four bytes come in front of the payload. -/
theorem not_handsOver_csrc : ¬∀ p : RtpPacket, p.HandsOver := by
  intro hall
  have hrange := handsOver_iff_passedOver.mp
    (hall ⟨true, tenBytes, [⟨0, 0, 0, 1⟩], none, [0, 0, 1, 0xBA], none, tenBytes_length, by decide,
      fun _ h => nomatch h⟩)
  revert hrange
  decide +kernel

end ProgrammingPath.Gb28181
