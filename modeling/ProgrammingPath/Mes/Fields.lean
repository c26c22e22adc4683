import ProgrammingPath.Mes.Request

/-!
# The fields of a body (`NetCSCP/mespack.h`)

The `write*` functions append a field to the body, the `read*` functions take one from the read
position on. `Takes` says what a reader does when its bytes stand at the read position; readers are
put together by `Takes.bind` and `Takes.times`, and no proof about a decoder looks into a reader
again.

`FieldsAgree` is what a codec of fields has to do: every field takes as many bytes as its width,
and is read back. The writers and readers of numbers and byte arrays do it. A string does it when
it is made of single-byte characters and fits: `writeQString` overwrites as many bytes as the
string has *characters*, and where its bytes are more the field grows. A date is never read back.
-/

namespace ProgrammingPath.Mes

open ProgrammingPath.Qt

namespace MESPack

/-! ## Writing -/

/-- The field that `writeQString` appends: `len` zero bytes, of which the first `str.length()` are
replaced by the bytes of the string. -/
def qstringField (str : QString) (len : Nat) : QByteArray :=
  QByteArray.replaceFront (List.replicate len 0) str.size str

/-- The two bytes of a word, low byte first. -/
def wordField (v : UInt16) : QByteArray := [v.toUInt8, (v >>> 8).toUInt8]

/-- The four bytes of a double word, low byte first. -/
def dwordField (v : UInt32) : QByteArray :=
  [v.toUInt8, (v >>> 8).toUInt8, (v >>> 16).toUInt8, (v >>> 24).toUInt8]

/-- The six bytes of `writeQDataTime`. The null date is the year -4713 of the first Julian day, and
the hour, minute and second of a null time are -1. -/
def qdateTimeField : QDateTime → QByteArray
  | some t =>
    [UInt8.ofNat (t.year % 100), UInt8.ofNat t.month, UInt8.ofNat t.day, UInt8.ofNat t.hour,
      UInt8.ofNat t.minute, UInt8.ofNat t.second]
  | none => [0xF3, 0x01, 0x01, 0xFF, 0xFF, 0xFF]

def append (p : MESPack) (bytes : QByteArray) : MESPack := { p with body := p.body ++ bytes }

def writeQString (p : MESPack) (str : QString) (len : Nat) : MESPack :=
  p.append (qstringField str len)
def writeQByteArray (p : MESPack) (array : QByteArray) : MESPack := p.append array
def writeQUint32 (p : MESPack) (v : UInt32) : MESPack := p.append (dwordField v)
def writeQUint16 (p : MESPack) (v : UInt16) : MESPack := p.append (wordField v)
def writeQUint8 (p : MESPack) (v : UInt8) : MESPack := p.append [v]
def writeQDataTime (p : MESPack) (dateTime : QDateTime) : MESPack :=
  p.append (qdateTimeField dateTime)

@[simp] theorem body_append (p : MESPack) (bytes : QByteArray) :
    (p.append bytes).body = p.body ++ bytes := rfl

/-- The string's bytes and the zeros that are left. -/
theorem qstringField_eq (str : QString) (len : Nat) :
    qstringField str len = str ++ List.replicate (len - str.size) 0 := by
  rw [qstringField, QByteArray.replaceFront, List.drop_replicate]

/-- The field has its width exactly if no byte was added. -/
theorem length_qstringField (str : QString) (len : Nat) :
    (qstringField str len).length = str.length + (len - str.size) := by
  rw [qstringField_eq, List.length_append, List.length_replicate]

/-! ## Reading -/

/-- Move the read position on. -/
def skip (p : MESPack) (n : Nat) : MESPack := { p with atPoint := p.atPoint + n }

/-- What is left to read. -/
structure At (p : MESPack) (rest : QByteArray) : Prop where
  nonneg : 0 ≤ p.atPoint
  le : p.atPoint ≤ p.body.length
  rest : p.body.drop p.atPoint.toNat = rest

variable {p : MESPack} {bytes rest : QByteArray}

theorem at_zero (h : p.atPoint = 0) : At p p.body := by
  refine ⟨by omega, by omega, ?_⟩
  rw [h]
  rfl

theorem At.skip (h : At p (bytes ++ rest)) : At (p.skip bytes.length) rest := by
  have hlen := congrArg List.length h.rest
  rw [List.length_drop, List.length_append] at hlen
  have hnonneg := h.nonneg
  have hle := h.le
  refine ⟨?_, ?_, ?_⟩
  · show 0 ≤ p.atPoint + bytes.length
    omega
  · show p.atPoint + bytes.length ≤ p.body.length
    omega
  · show p.body.drop (p.atPoint + bytes.length).toNat = rest
    have hpos : (p.atPoint + (bytes.length : Int)).toNat = p.atPoint.toNat + bytes.length := by
      omega
    rw [hpos, ← List.drop_drop, h.rest, List.drop_left]

theorem At.mid (h : At p rest) (n : Nat) : QByteArray.mid p.body p.atPoint n = rest.take n := by
  unfold QByteArray.mid
  have hnonneg := h.nonneg
  split
  · have hrest := h.rest
    rw [List.drop_eq_nil_of_le (by omega)] at hrest
    rw [← hrest, List.take_nil]
  · rw [if_neg (by omega), h.rest, Int.toNat_natCast]

theorem At.byteAt {b : UInt8} (h : At p (b :: rest)) :
    QByteArray.byteAt p.body p.atPoint = b := by
  have hget : (p.body.drop p.atPoint.toNat)[0]? = some b := by
    rw [h.rest]
    rfl
  rw [List.getElem?_drop, Nat.add_zero] at hget
  unfold QByteArray.byteAt
  rw [if_neg (by have := h.nonneg; omega), List.getD_eq_getElem?_getD, hget]
  rfl

/-- Everything is read when nothing is left. -/
theorem At.isReadEnd (h : At p rest) : p.isReadEnd = rest.isEmpty := by
  have hlen := congrArg List.length h.rest
  rw [List.length_drop] at hlen
  have hnonneg := h.nonneg
  have hle := h.le
  show (p.atPoint == (p.body.length : Int)) = rest.isEmpty
  cases rest with
  | nil =>
    rw [List.length_nil] at hlen
    rw [beq_iff_eq.mpr (by omega)]
    rfl
  | cons b rest =>
    rw [List.length_cons] at hlen
    exact beq_eq_false_iff_ne.mpr (by omega)

end MESPack

/-- The reader takes exactly these bytes, whatever follows them, and makes `v` of them. -/
def Takes {α : Type} (r : Reader α) (bytes : QByteArray) (v : α) : Prop :=
  ∀ (p : MESPack) (rest : QByteArray), p.At (bytes ++ rest) → r p = (v, p.skip bytes.length)

namespace Takes

open MESPack

variable {α β : Type} {r : Reader α} {f : α → Reader β} {bytes bytes' : QByteArray} {v : α} {w : β}

theorem pure (v : α) : Takes (Pure.pure v : Reader α) [] v := by
  intro p rest _
  show (v, p) = (v, p.skip 0)
  simp [MESPack.skip]

theorem bind (h : Takes r bytes v) (h' : Takes (f v) bytes' w) :
    Takes (r >>= f) (bytes ++ bytes') w := by
  intro p rest hat
  rw [List.append_assoc] at hat
  show f (r p).1 (r p).2 = _
  rw [h p _ hat, h' _ _ hat.skip, List.length_append]
  simp [MESPack.skip, Int.add_assoc]

/-- A loop of readers takes the elements one after the other. -/
theorem times {enc : β → QByteArray} {val : β → α} {xs : List β}
    (h : ∀ x ∈ xs, Takes r (enc x) (val x)) :
    Takes (r.times xs.length) (xs.flatMap enc) (xs.map val) := by
  induction xs with
  | nil => exact pure []
  | cons x xs ih =>
    obtain ⟨hx, hxs⟩ := List.forall_mem_cons.mp h
    rw [List.flatMap_cons, List.map_cons]
    refine bind hx ?_
    have htail := bind (f := fun ys => Pure.pure (val x :: ys)) (ih hxs) (pure (val x :: xs.map val))
    rw [List.append_nil] at htail
    exact htail

theorem quint8 (b : UInt8) : Takes Reader.quint8 [b] b := by
  intro p rest hat
  show (QByteArray.byteAt p.body p.atPoint, _) = _
  rw [At.byteAt hat]
  rfl

theorem readByte (n : Nat) (hn : bytes.length = n) : Takes (fun p => p.readByte n) bytes bytes := by
  intro p rest hat
  show (QByteArray.mid p.body p.atPoint n ++ List.replicate _ 0, _) = _
  rw [hat.mid, ← hn, List.take_left, Nat.sub_self]
  simp [MESPack.skip]

theorem quint16 (w : UInt16) : Takes Reader.quint16 (wordField w) w := by
  intro p rest hat
  have hread : p.readByte 2 = _ := readByte 2 rfl p rest hat
  show (UInt16.ofNat (leWord ((p.readByte 2).1.getD 0 0) ((p.readByte 2).1.getD 1 0)),
    (p.readByte 2).2) = _
  rw [hread]
  have hword : leWord w.toUInt8 (w >>> 8).toUInt8 = w.toNat := by
    have := leWord_ofNat w.toNat_lt
    rwa [UInt16.ofNat_toNat] at this
  show (UInt16.ofNat (leWord w.toUInt8 (w >>> 8).toUInt8), _) = _
  rw [hword, UInt16.ofNat_toNat]

theorem quint32 (w : UInt32) : Takes Reader.quint32 (dwordField w) w := by
  intro p rest hat
  have hread : p.readByte 4 = _ := readByte 4 rfl p rest hat
  show (UInt32.ofNat (leWord ((p.readByte 4).1.getD 0 0) ((p.readByte 4).1.getD 1 0) +
    65536 * leWord ((p.readByte 4).1.getD 2 0) ((p.readByte 4).1.getD 3 0)), (p.readByte 4).2) = _
  rw [hread]
  have hword : leWord w.toUInt8 (w >>> 8).toUInt8 +
      65536 * leWord (w >>> 16).toUInt8 (w >>> 24).toUInt8 = w.toNat := by
    have hlt := w.toNat_lt
    simp [leWord, Nat.shiftRight_eq_div_pow]
    omega
  show (UInt32.ofNat (leWord w.toUInt8 (w >>> 8).toUInt8 +
    65536 * leWord (w >>> 16).toUInt8 (w >>> 24).toUInt8), _) = _
  rw [hword, UInt32.ofNat_toNat]

theorem qbytes {n : Nat} (hn : bytes.length = n) : Takes (Reader.qbytes n) bytes bytes := by
  intro p rest hat
  show (QByteArray.mid p.body p.atPoint n, { p with atPoint := p.atPoint + n }) = _
  rw [hat.mid, ← hn, List.take_left]
  rfl

/-- A string is what stands before the first zero byte of its field. -/
theorem qstring {n : Nat} (hn : bytes.length = n) :
    Takes (Reader.qstring n) bytes (QByteArray.toQString bytes) := by
  intro p rest hat
  show (QByteArray.toQString (QByteArray.mid p.body p.atPoint n),
    { p with atPoint := p.atPoint + n }) = _
  rw [hat.mid, ← hn, List.take_left]
  rfl

/-- Six bytes are passed over for a date. -/
theorem qDateTime (hn : bytes.length = 6) : Takes Reader.qDateTime bytes none := by
  intro p rest hat
  show (none, { p with atPoint := p.atPoint + 6 }) = _
  rw [hn]
  rfl

end Takes

/-! ## Sequences of fields -/

/-- A field with the value that is written to it. A string is the list of its characters. -/
inductive Field where
  | quint8 (v : UInt8)
  | quint16 (v : UInt16)
  | quint32 (v : UInt32)
  | qbyteArray (array : QByteArray)
  | qdateTime (dateTime : DateTime)
  | qstring (str : List UInt16) (len : Nat)
  deriving DecidableEq, Repr

/-- What a read function returns. -/
inductive FieldValue where
  | quint8 (v : UInt8)
  | quint16 (v : UInt16)
  | quint32 (v : UInt32)
  | qbyteArray (array : QByteArray)
  | qdateTime (dateTime : QDateTime)
  | qstring (str : List UInt16)
  deriving DecidableEq, Repr

namespace Field

variable (codec : Gb2312)

def width : Field → Nat
  | quint8 _ => 1
  | quint16 _ => 2
  | quint32 _ => 4
  | qbyteArray array => array.length
  | qdateTime _ => 6
  | qstring _ len => len

/-- The value that reading must return; a string is cut to the width of its field. -/
def value : Field → FieldValue
  | quint8 v => .quint8 v
  | quint16 v => .quint16 v
  | quint32 v => .quint32 v
  | qbyteArray array => .qbyteArray array
  | qdateTime dateTime => .qdateTime (some dateTime)
  | qstring str len => .qstring (str.take len)

def write (p : MESPack) : Field → MESPack
  | quint8 v => p.writeQUint8 v
  | quint16 v => p.writeQUint16 v
  | quint32 v => p.writeQUint32 v
  | qbyteArray array => p.writeQByteArray array
  | qdateTime dateTime => p.writeQDataTime (some dateTime)
  | qstring str len => p.writeQString (codec.toAscii str) len

def read : Field → Reader FieldValue
  | quint8 _ => return .quint8 (← Reader.quint8)
  | quint16 _ => return .quint16 (← Reader.quint16)
  | quint32 _ => return .quint32 (← Reader.quint32)
  | qbyteArray array => return .qbyteArray (← Reader.qbytes array.length)
  | qdateTime _ => return .qdateTime (← Reader.qDateTime)
  | qstring _ len => return .qstring (codec.fromAscii (← Reader.qstring len))

/-- Write the fields one after the other. -/
def writeAll (p : MESPack) (fields : List Field) : MESPack := fields.foldl (write codec) p

/-- Read fields of these kinds one after the other. -/
def readAll : List Field → Reader (List FieldValue)
  | [] => return []
  | f :: fields => do
    let v ← f.read codec
    let vs ← readAll fields
    return v :: vs

/-- Each field takes as many bytes as its width, and all of them are read back. -/
structure Agree (fields : List Field) : Prop where
  grows : ∀ l f r, fields = l ++ f :: r →
    (writeAll codec {} (l ++ [f])).body.length = (writeAll codec {} l).body.length + f.width
  read : (readAll codec fields (writeAll codec {} fields)).1 = fields.map value

/-- The fields that come back: no dates, and strings of single-byte characters that fit. -/
def Plain : Field → Prop
  | qdateTime _ => False
  | qstring str len => str.length ≤ len ∧ ∀ c ∈ str, 0 < c ∧ c < 0x80
  | _ => True

/-- The bytes of a field. -/
def bytes : Field → QByteArray
  | quint8 v => [v]
  | quint16 v => MESPack.wordField v
  | quint32 v => MESPack.dwordField v
  | qbyteArray array => array
  | qdateTime dateTime => MESPack.qdateTimeField (some dateTime)
  | qstring str len => MESPack.qstringField (codec.toAscii str) len

/-- What is read from the bytes of a field that has its width. -/
def back : Field → FieldValue
  | qdateTime _ => .qdateTime none
  | qstring str len =>
    .qstring (codec.fromAscii (QByteArray.toQString (MESPack.qstringField (codec.toAscii str) len)))
  | f => f.value

variable {codec : Gb2312} {f : Field}

theorem write_eq (p : MESPack) : f.write codec p = p.append (f.bytes codec) := by
  cases f <;> rfl

theorem writeAll_eq (p : MESPack) (fields : List Field) :
    writeAll codec p fields = p.append (fields.flatMap (bytes codec)) := by
  induction fields generalizing p with
  | nil => simp [writeAll, MESPack.append]
  | cons f fields ih =>
    rw [writeAll, List.foldl_cons, ← writeAll, ih, write_eq]
    simp [MESPack.append]

/-- A field with its width is taken as a whole. -/
theorem takes_read (h : (f.bytes codec).length = f.width) :
    Takes (f.read codec) (f.bytes codec) (f.back codec) := by
  have hret : ∀ {α : Type} {r : Reader α} {bytes : QByteArray} {v : α} (g : α → FieldValue),
      Takes r bytes v → Takes (r >>= fun x => pure (g x)) bytes (g v) := by
    intro α r bytes v g hr
    have hbind := hr.bind (f := fun x => pure (g x)) (Takes.pure (g v))
    rwa [List.append_nil] at hbind
  cases f with
  | quint8 v => exact hret _ (Takes.quint8 v)
  | quint16 v => exact hret _ (Takes.quint16 v)
  | quint32 v => exact hret _ (Takes.quint32 v)
  | qbyteArray array => exact hret _ (Takes.qbytes rfl)
  | qdateTime dateTime => exact hret _ (Takes.qDateTime h)
  | qstring str len => exact hret _ (Takes.qstring h)

theorem takes_readAll {fields : List Field} (h : ∀ f ∈ fields, (f.bytes codec).length = f.width) :
    Takes (readAll codec fields) (fields.flatMap (bytes codec)) (fields.map (back codec)) := by
  induction fields with
  | nil => exact Takes.pure []
  | cons f fields ih =>
    obtain ⟨hf, hfields⟩ := List.forall_mem_cons.mp h
    rw [List.flatMap_cons, List.map_cons]
    refine (takes_read hf).bind ?_
    have htail := (ih hfields).bind (f := fun vs => pure (f.back codec :: vs)) (Takes.pure _)
    rw [List.append_nil] at htail
    exact htail

/-- The body grows by the width of each field if the bytes of each field are that many. -/
theorem grows_iff (fields : List Field) :
    (∀ l f r, fields = l ++ f :: r → (writeAll codec {} (l ++ [f])).body.length =
      (writeAll codec {} l).body.length + f.width) ↔
    ∀ f ∈ fields, (f.bytes codec).length = f.width := by
  have hlen : ∀ l : List Field, ∀ f : Field, (writeAll codec {} (l ++ [f])).body.length =
      (writeAll codec {} l).body.length + (f.bytes codec).length := by
    intro l f
    rw [writeAll_eq, writeAll_eq]
    simp
  constructor
  · intro h f hf
    obtain ⟨l, r, hsplit⟩ := List.append_of_mem hf
    have hgrow := h l f r hsplit
    rw [hlen] at hgrow
    exact Nat.add_left_cancel hgrow
  · intro h l f r hsplit
    have hf : f ∈ fields := by
      rw [hsplit]
      exact List.mem_append_right _ List.mem_cons_self
    rw [hlen, h f hf]

/-! ### Strings -/

theorem length_charToAscii (c : UInt16) :
    1 ≤ (codec.charToAscii c).length ∧
      ((codec.charToAscii c).length = 1 → ∀ b ∈ codec.charToAscii c, b < 0x80) := by
  unfold Gb2312.charToAscii
  split
  · next hc =>
    refine ⟨Nat.le_refl _, fun _ => ?_⟩
    rw [List.forall_mem_singleton]
    rw [UInt16.lt_iff_toNat_lt] at hc
    rw [UInt8.lt_iff_toNat_lt, UInt16.toNat_toUInt8]
    exact Nat.lt_of_le_of_lt (Nat.mod_le _ _) hc
  · split
    · exact ⟨Nat.le_add_left 1 1, fun h => absurd h (by simp)⟩
    · exact ⟨Nat.le_refl _, fun _ => List.forall_mem_singleton.mpr (by decide)⟩

/-- No text has fewer bytes than characters; one with as many has single bytes only. -/
theorem length_toAscii (str : List UInt16) :
    str.length ≤ (codec.toAscii str).length ∧
      ((codec.toAscii str).length = str.length → QString.Ascii (codec.toAscii str)) := by
  induction str with
  | nil => exact ⟨Nat.le_refl _, fun _ => List.forall_mem_nil _⟩
  | cons c str ih =>
    obtain ⟨hc, hc'⟩ := @length_charToAscii codec c
    have hcons : codec.toAscii (c :: str) = codec.charToAscii c ++ codec.toAscii str := by
      rw [Gb2312.toAscii, List.flatMap_cons, Gb2312.toAscii]
    rw [hcons, List.length_append, List.length_cons]
    refine ⟨by omega, fun hlen b hb => ?_⟩
    rcases List.mem_append.mp hb with hb | hb
    · exact hc' (by omega) b hb
    · exact ih.2 (by omega) b hb

/-- A string field has its width if its text is single bytes and fits. -/
theorem length_qstringField_eq_iff (str : List UInt16) (len : Nat) :
    (MESPack.qstringField (codec.toAscii str) len).length = len ↔
      str.length ≤ len ∧ (codec.toAscii str).length = str.length := by
  have hle := (@length_toAscii codec str).1
  rw [MESPack.length_qstringField, Gb2312.size_toAscii]
  omega

/-- Single bytes are read as the characters they are. -/
theorem fromAscii_of_ascii {s : QString} (h : s.Ascii) :
    codec.fromAscii s = s.map UInt8.toUInt16 := by
  induction s with
  | nil => rfl
  | cons a s ih =>
    obtain ⟨ha, hs⟩ := List.forall_mem_cons.mp h
    rw [Gb2312.fromAscii.eq_def]
    exact (if_pos ha).trans (congrArg _ (ih hs))

theorem toAscii_of_lt {str : List UInt16} (h : ∀ c ∈ str, c < 0x80) :
    codec.toAscii str = str.map UInt16.toUInt8 := by
  induction str with
  | nil => rfl
  | cons c str ih =>
    obtain ⟨hc, hstr⟩ := List.forall_mem_cons.mp h
    rw [Gb2312.toAscii, List.flatMap_cons, ← Gb2312.toAscii, ih hstr, Gb2312.charToAscii, if_pos hc]
    rfl

/-- The characters that are bytes below `0x80`. -/
theorem toUInt16_pos_lt {b : UInt8} (hb : b < 0x80) (h0 : b ≠ 0) :
    0 < b.toUInt16 ∧ b.toUInt16 < 0x80 := by
  rw [UInt16.lt_iff_toNat_lt, UInt16.lt_iff_toNat_lt, UInt8.toNat_toUInt16]
  rw [UInt8.lt_iff_toNat_lt] at hb
  have hne : b.toNat ≠ 0 := fun h => h0 (UInt8.toNat_inj.mp h)
  exact ⟨Nat.pos_of_ne_zero hne, hb⟩

theorem toUInt16_toUInt8 {c : UInt16} (hc : c < 0x80) : c.toUInt8.toUInt16 = c := by
  rw [UInt16.lt_iff_toNat_lt] at hc
  apply UInt16.toNat_inj.mp
  rw [UInt8.toNat_toUInt16, UInt16.toNat_toUInt8]
  exact Nat.mod_eq_of_lt (Nat.lt_trans hc (by decide))

/-- Strings come back if they are made of single-byte characters other than zero. -/
theorem back_qstring_iff {str : List UInt16} {len : Nat} (hlen : str.length ≤ len)
    (hbytes : (codec.toAscii str).length = str.length) :
    (qstring str len).back codec = (qstring str len).value ↔ ∀ c ∈ str, 0 < c ∧ c < 0x80 := by
  have hascii := (length_toAscii str).2 hbytes
  have htext : QByteArray.toQString (MESPack.qstringField (codec.toAscii str) len) =
      QByteArray.toQString (codec.toAscii str) := by
    rw [MESPack.qstringField_eq, QByteArray.toQString_append_zeros]
  have hsub : QString.Ascii (QByteArray.toQString (codec.toAscii str)) :=
    fun b hb => hascii b ((List.takeWhile_prefix _).subset hb)
  show FieldValue.qstring (codec.fromAscii (QByteArray.toQString (MESPack.qstringField _ len))) =
    FieldValue.qstring (str.take len) ↔ _
  rw [htext, FieldValue.qstring.injEq, List.take_of_length_le hlen, fromAscii_of_ascii hsub]
  constructor
  · intro heq c hc
    rw [← heq] at hc
    obtain ⟨b, hb, rfl⟩ := List.mem_map.mp hc
    exact toUInt16_pos_lt (hsub b hb) (QByteArray.ne_zero_of_mem_toQString hb)
  · intro hplain
    have hchars : codec.toAscii str = str.map UInt16.toUInt8 :=
      toAscii_of_lt fun c hc => (hplain c hc).2
    have hsmall : ∀ c ∈ str, c.toUInt8.toUInt16 = c :=
      fun c hc => toUInt16_toUInt8 (hplain c hc).2
    have hfree : (0 : UInt8) ∉ codec.toAscii str := by
      rw [hchars]
      intro h0
      obtain ⟨c, hc, hc0⟩ := List.mem_map.mp h0
      have hzero := hsmall c hc
      rw [hc0] at hzero
      exact absurd (hplain c hc).1 (by rw [← hzero]; decide)
    rw [QByteArray.toQString_of_notMem hfree, hchars, List.map_map]
    exact (List.map_congr_left (g := id) hsmall).trans (List.map_id str)

/-- Which sequences of fields the codec handles. -/
theorem agree_iff (codec : Gb2312) (fields : List Field) :
    Agree codec fields ↔ ∀ f ∈ fields, f.Plain := by
  have hread : (∀ f ∈ fields, (f.bytes codec).length = f.width) →
      (readAll codec fields (writeAll codec {} fields)).1 = fields.map (back codec) := by
    intro hwidth
    have hat := MESPack.at_zero (p := writeAll codec {} fields) (by rw [writeAll_eq]; rfl)
    have hbody : (writeAll codec {} fields).body = fields.flatMap (bytes codec) ++ [] := by
      rw [writeAll_eq, List.append_nil]
      rfl
    rw [hbody] at hat
    rw [takes_readAll hwidth _ _ hat]
  constructor
  · intro h f hf
    have hwidth := (grows_iff fields).mp h.grows
    have hback : f.back codec = f.value := by
      have hall := (hread hwidth).symm.trans h.read
      exact List.map_inj_left.mp hall f hf
    cases f with
    | qdateTime dateTime => simp [back, value] at hback
    | qstring str len =>
      obtain ⟨hlen, hbytes⟩ := (length_qstringField_eq_iff str len).mp (hwidth _ hf)
      exact ⟨hlen, (back_qstring_iff hlen hbytes).mp hback⟩
    | _ => trivial
  · intro h
    have hwidth : ∀ f ∈ fields, (f.bytes codec).length = f.width := by
      intro f hf
      have hplain := h f hf
      cases f with
      | qdateTime dateTime => exact hplain.elim
      | qstring str len =>
        refine (length_qstringField_eq_iff str len).mpr ⟨hplain.1, ?_⟩
        rw [toAscii_of_lt fun c hc => (hplain.2 c hc).2, List.length_map]
      | _ => rfl
    refine ⟨(grows_iff fields).mpr hwidth, ?_⟩
    rw [hread hwidth]
    refine List.map_congr_left fun f hf => ?_
    have hplain := h f hf
    cases f with
    | qdateTime dateTime => exact hplain.elim
    | qstring str len =>
      obtain ⟨hlen, hbytes⟩ := (length_qstringField_eq_iff str len).mp (hwidth _ hf)
      exact (back_qstring_iff hlen hbytes).mpr hplain.2
    | _ => rfl

/-- A string of three characters in a field of two bytes. -/
theorem not_agree_long : ¬ ∀ (codec : Gb2312) (fields : List Field), Agree codec fields := by
  intro h
  have hagree := h ⟨fun _ => none, fun _ _ => 0xFFFD, fun _ _ _ hpair => by cases hpair⟩
    [qstring [0x41, 0x42, 0x43] 2]
  have hwidth := (grows_iff _).mp hagree.grows _ List.mem_cons_self
  have hfits := ((length_qstringField_eq_iff _ _).mp hwidth).1
  exact absurd hfits (by decide)

end Field

end ProgrammingPath.Mes
