import ProgrammingPath.Lib.Memory
import ProgrammingPath.Lib.Run

/-!
# Replies of the I/O module

The I/O module on the RS485 bus answers a read request with 29 bytes: device 1, function 3, the
length 24, so many data bytes and a checksum. `Collection::onDataProtocol` gets what the serial port
returned, in chunks of any size, and puts replies together in `revdata`. It starts afresh with every
chunk that begins with `01 03`, it copies chunks without asking whether they fit, and it looks at the
checksum as soon as more than 24 bytes are there. A stream of replies comes through in the runs in
which none of the three does harm (`undisturbed`).
-/

namespace ProgrammingPath.Mes.Collection

open ProgrammingPath.Lib

/-! ## The checksum -/

/-- One bit of `Rs485Lister::crc16`. -/
def crcBit (crc : UInt16) : UInt16 :=
  if crc &&& 1 ≠ 0 then (crc >>> 1) ^^^ 0xA001 else crc >>> 1

def crcByte (crc : UInt16) (b : UInt8) : UInt16 := Nat.repeat crcBit 8 (crc ^^^ b.toUInt16)

/-- `Rs485Lister::crc16`. -/
def crc16 (buf : List UInt8) : UInt16 := buf.foldl crcByte 0xffff

/-! ## The state -/

def maxModbusFrameLen : Nat := 1024

def devAddr : UInt8 := 1

def funNo : UInt8 := 3

def ioModuleChannelNum : Nat := 12

/-- `temperature`; `tempbuff` has the values that were stored since `count` was `0`. -/
structure Temperature where
  tempbuff : List Nat
  count : Nat
  maxtemp : Nat
  mintemp : Nat
  lasttemp : Nat
  sum : Nat
  deriving DecidableEq, Repr

def Temperature.push (t : Temperature) (value : Nat) : Temperature where
  lasttemp := t.lasttemp
  tempbuff := t.tempbuff ++ [value]
  count := (t.count + 1) % 65536
  maxtemp := max t.maxtemp value
  mintemp := min t.mintemp value
  sum := (t.sum + value) % 4294967296

/-- The members of `Collection`; `parsed` records the calls of `parsedata`. -/
structure State where
  revdata : Mem
  uwDataLen : Nat
  uwIoModuleData : List Nat
  pressureList : List Nat
  tempqueue : List Temperature
  parsed : List (List UInt8)

/-- The constructor. `revdata` is not initialised. -/
def State.init (revdata : Mem) : State :=
  ⟨revdata, 0, List.replicate 12 0, [], List.replicate 8 ⟨[], 0, 0, 0, 0, 0⟩, []⟩

/-- What is stored. -/
def State.stored (s : State) : List UInt8 := s.revdata.bytes 0 s.uwDataLen

/-! ## `parsedata` -/

/-- A `char`, which is signed. -/
def charInt (c : UInt8) : Int := if c.toNat < 128 then c.toNat else c.toNat - 256

/-- `(orgdata[i * 2 + 0] << 8) + orgdata[i * 2 + 1]` as a `quint16`. -/
def channelValue (orgdata : List UInt8) (i : Nat) : Nat :=
  ((charInt (orgdata.getD (2 * i) 0) * 256 + charInt (orgdata.getD (2 * i + 1) 0)) % 65536).toNat

/-- One channel: the four inputs are flags, then come four temperatures and two voltages. -/
def parseChannel (orgdata : List UInt8) (s : State) (i : Nat) : State :=
  let value := channelValue orgdata i
  if i < 4 then
    { s with uwIoModuleData := s.uwIoModuleData.set i (if value &&& 0x0F80 = 0x0F80 then 1 else 0) }
  else
    let s := { s with uwIoModuleData := s.uwIoModuleData.set i value }
    if i = 8 ∨ i = 9 then { s with pressureList := s.pressureList ++ [value] }
    else if 4 ≤ i ∧ i ≤ 7 then { s with tempqueue := s.tempqueue.modify (i - 4) (·.push value) }
    else s

/-- `Collection::parsedata`. -/
def parsedata (s : State) (orgdata : List UInt8) : State :=
  let s := { s with parsed := s.parsed ++ [orgdata] }
  (List.range ioModuleChannelNum).foldl (parseChannel orgdata) s

/-! ## `onDataProtocol` -/

/-- What the serial port returned, and the byte behind it in the buffer, which the first test reads
when there is only one. -/
structure Chunk where
  first : UInt8
  more : List UInt8
  behind : UInt8
  deriving DecidableEq, Repr

def Chunk.bytes (c : Chunk) : List UInt8 := c.first :: c.more

/-- `(data[0] == devAddr) && (data[1] == funNo)`. -/
def Chunk.isHead (c : Chunk) : Bool := c.first == devAddr && c.more.headD c.behind == funNo

/-- A chunk is copied to `revdata`. -/
def store (s : State) (c : Chunk) : State :=
  if c.isHead then
    { s with revdata := s.revdata.write 0 c.bytes, uwDataLen := c.bytes.length % 65536 }
  else if s.uwDataLen < maxModbusFrameLen then
    { s with
      revdata := s.revdata.write s.uwDataLen c.bytes
      uwDataLen := (s.uwDataLen + c.bytes.length) % 65536 }
  else { s with uwDataLen := 0 }

/-- `memcpy(revdata, revdata + i, ..)` of all that is stored behind `i`. -/
def shift (s : State) (i : Nat) : State :=
  { s with
    revdata := s.revdata.write 0 (s.revdata.bytes i (s.uwDataLen - i))
    uwDataLen := s.uwDataLen - i }

/-- The `for` loop: where the first `01 03` starts. -/
def findHead (s : State) : Option Nat :=
  (List.range s.uwDataLen).find? fun i =>
    s.revdata i == devAddr && s.revdata ((i + 1 : Nat) : Int) == funNo

/-- What the `for` loop does, with the value of `datalen` after it. -/
def seek (s : State) (datalen : Nat) : State × Nat :=
  match findHead s with
  | some i =>
    let s := if 0 < i then shift s i else s
    (s, if 2 < s.uwDataLen then (s.revdata 2).toNat else datalen)
  | none => (s, datalen)

/-- The checksum of so many data bytes is right, as far as `revdata` tells. -/
def checks (revdata : Mem) (datalen : Nat) : Bool :=
  (crc16 (revdata.bytes 0 (datalen + 3))).toNat ==
    (revdata ((datalen + 4 : Nat) : Int)).toNat * 256 + (revdata ((datalen + 3 : Nat) : Int)).toNat

/-- The `while` loop. Every turn that is not the last one takes bytes away, so `fuel` need not exceed
their number. -/
def protocolLoop : Nat → State → Nat → State
  | 0, s, _ => s
  | fuel + 1, s, datalen =>
    let (s, datalen) := seek s datalen
    if s.uwDataLen ≤ datalen ∨ datalen = 0 then s
    else if checks s.revdata datalen then
      let s := parsedata s (s.revdata.bytes 3 datalen)
      if datalen + 5 < s.uwDataLen then
        let s := shift s (datalen + 5)
        if s.uwDataLen < 29 then s else protocolLoop fuel s datalen
      else { s with uwDataLen := 0 }
    else s

/-- `Collection::onDataProtocol`. -/
def onDataProtocol (s : State) (c : Chunk) : State :=
  protocolLoop ((store s c).uwDataLen + 1) (store s c) 0

/-- The chunks one after the other. -/
def receive (s : State) (chunks : List Chunk) : State := chunks.foldl onDataProtocol s

/-! ## What the parts leave alone -/

@[simp] theorem revdata_parsedata (s : State) (orgdata : List UInt8) :
    (parsedata s orgdata).revdata = s.revdata := by
  apply foldl_frame State.revdata
  intro s i
  simp only [parseChannel]
  grind

@[simp] theorem uwDataLen_parsedata (s : State) (orgdata : List UInt8) :
    (parsedata s orgdata).uwDataLen = s.uwDataLen := by
  apply foldl_frame State.uwDataLen
  intro s i
  simp only [parseChannel]
  grind

@[simp] theorem parsed_parsedata (s : State) (orgdata : List UInt8) :
    (parsedata s orgdata).parsed = s.parsed ++ [orgdata] := by
  apply foldl_frame State.parsed
  intro s i
  simp only [parseChannel]
  grind

theorem uwDataLen_seek_le (s : State) (datalen : Nat) : (seek s datalen).1.uwDataLen ≤ s.uwDataLen := by
  rw [seek]
  split
  · split
    · exact Nat.sub_le _ _
    · exact Nat.le_refl _
  · exact Nat.le_refl _

/-- The loop only takes bytes away. -/
theorem uwDataLen_protocolLoop_le (fuel : Nat) (s : State) (datalen : Nat) :
    (protocolLoop fuel s datalen).uwDataLen ≤ s.uwDataLen := by
  induction fuel generalizing s datalen with
  | zero => exact Nat.le_refl _
  | succ fuel ih =>
    have hseek := uwDataLen_seek_le s datalen
    rw [protocolLoop]
    generalize seek s datalen = r at hseek
    obtain ⟨t, n⟩ := r
    simp only at hseek ⊢
    split
    · exact hseek
    · split
      · split
        · have hshift : (shift (parsedata t (t.revdata.bytes 3 n)) (n + 5)).uwDataLen ≤
              s.uwDataLen := by
            simp only [shift, uwDataLen_parsedata]
            omega
          split
          · exact hshift
          · exact Nat.le_trans (ih _ _) hshift
        · exact Nat.zero_le _
      · exact hseek

/-! ## Replies -/

/-- A reply with its 24 data bytes. -/
structure Reply where
  data : List UInt8
  length_data : data.length = 24
  deriving DecidableEq, Repr

def Reply.head (r : Reply) : List UInt8 := [devAddr, funNo, 24] ++ r.data

/-- The checksum comes with its low byte first. -/
def Reply.trailer (r : Reply) : List UInt8 :=
  [UInt8.ofNat ((crc16 r.head).toNat % 256), UInt8.ofNat ((crc16 r.head).toNat / 256)]

def Reply.bytes (r : Reply) : List UInt8 := r.head ++ r.trailer

theorem bytes_eq_cons (r : Reply) :
    r.bytes = devAddr :: funNo :: 24 :: (r.data ++ r.trailer) := by
  rw [Reply.bytes, Reply.head]
  rfl

theorem length_head (r : Reply) : r.head.length = 27 := by
  rw [Reply.head, List.length_append, r.length_data]
  rfl

theorem length_bytes (r : Reply) : r.bytes.length = 29 := by
  rw [Reply.bytes, List.length_append, length_head]
  rfl

theorem length_stored (s : State) : s.stored.length = s.uwDataLen := Mem.length_bytes _

variable {s : State} {r : Reply} {more : List UInt8}

/-- What `revdata` has, if what is stored begins so. -/
theorem bytes_of_stored {as bs : List UInt8} (h : s.stored = as ++ bs) :
    s.revdata.bytes 0 as.length = as ∧ s.revdata.bytes as.length bs.length = bs ∧
      s.uwDataLen = as.length + bs.length := by
  have hlen : s.uwDataLen = as.length + bs.length := by
    rw [← length_stored, h, List.length_append]
  rw [State.stored, hlen] at h
  obtain ⟨h1, h2⟩ := Mem.bytes_eq_append _ h
  rw [Int.zero_add] at h2
  exact ⟨h1, h2, hlen⟩

/-- The head of a reply is found at once. -/
theorem findHead_zero (hpos : 0 < s.uwDataLen) (h0 : s.revdata 0 = devAddr)
    (h1 : s.revdata 1 = funNo) : findHead s = some 0 := by
  obtain ⟨n, hn⟩ := Nat.exists_eq_succ_of_ne_zero (Nat.ne_of_gt hpos)
  rw [findHead, hn, List.range_succ_eq_map, List.find?_cons_of_pos]
  have h0' : s.revdata ((0 : Nat) : Int) = devAddr := h0
  have h1' : s.revdata ((0 + 1 : Nat) : Int) = funNo := h1
  rw [h0', h1']
  rfl

theorem seek_reply (hlen : 2 < s.uwDataLen) (h0 : s.revdata 0 = devAddr)
    (h1 : s.revdata 1 = funNo) (h2 : s.revdata 2 = 24) (datalen : Nat) :
    seek s datalen = (s, 24) := by
  rw [seek, findHead_zero (by omega) h0 h1]
  simp only [Nat.lt_irrefl, if_false, if_pos hlen, h2]
  rfl

/-- The first bytes that are stored are those of `revdata`. -/
theorem revdata_of_stored {a b c : UInt8} {tail : List UInt8} (h : s.stored = a :: b :: c :: tail) :
    s.revdata 0 = a ∧ s.revdata 1 = b ∧ s.revdata 2 = c ∧ 2 < s.uwDataLen := by
  have hlen : s.uwDataLen = tail.length + 1 + 1 + 1 := by
    rw [← length_stored, h]
    rfl
  rw [State.stored, hlen, Mem.bytes_succ, Mem.bytes_succ, Mem.bytes_succ] at h
  simp only [List.cons.injEq] at h
  exact ⟨h.1, h.2.1, h.2.2.1, by omega⟩

/-- A complete reply at the front. -/
theorem reply_at_front (h : s.stored = r.bytes ++ more) :
    (∀ datalen, seek s datalen = (s, 24)) ∧ checks s.revdata 24 = true ∧
      s.revdata.bytes 3 24 = r.data ∧ s.uwDataLen = 29 + more.length ∧
      s.revdata.bytes 29 more.length = more := by
  obtain ⟨h0, h1, h2, hlt⟩ := revdata_of_stored
    (show s.stored = devAddr :: funNo :: 24 :: (r.data ++ r.trailer ++ more) by
      rw [h, bytes_eq_cons]
      rfl)
  obtain ⟨hreply, hmore, hlen⟩ := bytes_of_stored h
  rw [length_bytes] at hreply hmore hlen
  have hsplit : s.revdata.bytes 0 (r.head.length + r.trailer.length) = r.head ++ r.trailer := by
    rw [length_head]
    exact hreply
  obtain ⟨hhead, hcrc⟩ := Mem.bytes_eq_append _ hsplit
  rw [length_head] at hhead hcrc
  have hdata : s.revdata.bytes 3 24 = r.data := by
    have hbody : s.revdata.bytes 0 ([devAddr, funNo, 24].length + r.data.length) =
        [devAddr, funNo, 24] ++ r.data := by
      rw [r.length_data]
      exact hhead
    have hdata := (Mem.bytes_eq_append _ hbody).2
    rwa [r.length_data] at hdata
  refine ⟨seek_reply hlt h0 h1 h2, ?_, hdata, hlen, hmore⟩
  have hbytes : s.revdata 27 = UInt8.ofNat ((crc16 r.head).toNat % 256) ∧
      s.revdata 28 = UInt8.ofNat ((crc16 r.head).toNat / 256) := by
    have hcrc' : s.revdata.bytes 27 (0 + 1 + 1) = r.trailer := hcrc
    rw [Mem.bytes_succ, Mem.bytes_succ, Reply.trailer, List.cons.injEq, List.cons.injEq] at hcrc'
    exact ⟨hcrc'.1, hcrc'.2.1⟩
  have hlt' : (crc16 r.head).toNat < 65536 := UInt16.toNat_lt _
  rw [checks, show s.revdata.bytes 0 (24 + 3) = r.head from hhead,
    show s.revdata ((24 + 4 : Nat) : Int) = _ from hbytes.2,
    show s.revdata ((24 + 3 : Nat) : Int) = _ from hbytes.1, UInt8.toNat_ofNat',
    UInt8.toNat_ofNat', beq_iff_eq]
  omega

theorem parsed_shift {i : Nat} : (shift s i).parsed = s.parsed := rfl

/-- Moving the rest to the front. -/
theorem stored_shift {i : Nat} : (shift s i).stored = s.revdata.bytes i (s.uwDataLen - i) := by
  rw [shift, State.stored]
  have hself : (s.revdata.write 0 (s.revdata.bytes i (s.uwDataLen - i))).bytes 0
      (s.revdata.bytes i (s.uwDataLen - i)).length = _ := Mem.bytes_write_self _
  rwa [Mem.length_bytes] at hself

/-- A complete reply is parsed, and what is behind it stays. -/
theorem protocolLoop_reply (fuel datalen : Nat) (h : s.stored = r.bytes ++ more) :
    ∃ t, t.stored = more ∧ t.parsed = s.parsed ++ [r.data] ∧
      protocolLoop (fuel + 1) s datalen =
        if more.length < 29 then t else protocolLoop fuel t 24 := by
  obtain ⟨hseek, hcheck, hdata, hlen, hmore⟩ := reply_at_front h
  rw [protocolLoop]
  simp only [hseek datalen, hdata, hcheck, if_true, uwDataLen_parsedata]
  rw [if_neg (by omega)]
  by_cases hnil : more = []
  · subst hnil
    rw [if_neg (show ¬24 + 5 < s.uwDataLen by rw [hlen]; exact Nat.lt_irrefl _)]
    refine ⟨{ parsedata s r.data with uwDataLen := 0 }, rfl, ?_, ?_⟩
    · rw [← parsed_parsedata s r.data]
    · rw [if_pos (show ([] : List UInt8).length < 29 by decide)]
  · have hpos := List.length_pos_iff.mpr hnil
    have hstored : (shift (parsedata s r.data) 29).stored = more := by
      rw [stored_shift, revdata_parsedata, uwDataLen_parsedata, hlen, Nat.add_sub_cancel_left]
      exact hmore
    rw [if_pos (show 24 + 5 < s.uwDataLen by omega)]
    refine ⟨shift (parsedata s r.data) 29, hstored, ?_, ?_⟩
    · rw [parsed_shift, parsed_parsedata]
    · rw [← length_stored, hstored]

/-- The loop ends when there is no head, too little behind it, or a wrong checksum. -/
theorem protocolLoop_stop (fuel : Nat) {d : Nat} (hseek : seek s 0 = (s, d))
    (hd : d = 0 ∨ s.uwDataLen ≤ d ∨ checks s.revdata d = false) :
    protocolLoop (fuel + 1) s 0 = s := by
  rw [protocolLoop]
  simp only [hseek]
  rcases hd with rfl | hle | hfalse
  · rw [if_pos (.inr rfl)]
  · rw [if_pos (.inl hle)]
  · rw [hfalse]
    simp

/-- Part of a reply stays, if its checksum is not right too early. -/
theorem protocolLoop_part (fuel : Nat) {missing : List UInt8} (h : r.bytes = s.stored ++ missing)
    (hshort : s.uwDataLen < 29) (hearly : 25 ≤ s.uwDataLen → checks s.revdata 24 = false) :
    protocolLoop (fuel + 1) s 0 = s := by
  rw [bytes_eq_cons] at h
  cases hstored : s.stored with
  | nil =>
    have hlen : s.uwDataLen = 0 := by rw [← length_stored, hstored]; rfl
    apply protocolLoop_stop fuel (d := 0)
    · rw [seek, findHead, hlen]
      rfl
    · exact .inl rfl
  | cons a tail =>
    rw [hstored, List.cons_append, List.cons.injEq] at h
    obtain ⟨rfl, h⟩ := h
    cases tail with
    | nil =>
      have hlen : s.uwDataLen = 1 := by rw [← length_stored, hstored]; rfl
      apply protocolLoop_stop fuel (d := 0)
      · -- the byte behind it may be anything
        cases hfind : findHead s with
        | none => rw [seek, hfind]
        | some i =>
          have hi : i = 0 := by
            have hmem := List.mem_of_find?_eq_some hfind
            rw [hlen, List.mem_range] at hmem
            omega
          rw [seek, hfind, hi]
          simp [hlen]
      · exact .inl rfl
    | cons b tail =>
      rw [List.cons_append, List.cons.injEq] at h
      obtain ⟨rfl, h⟩ := h
      cases tail with
      | nil =>
        have hlen : s.uwDataLen = 1 + 1 := by rw [← length_stored, hstored]; rfl
        have hfront := hstored
        rw [State.stored, hlen, Mem.bytes_succ, Mem.bytes_succ, List.cons.injEq,
          List.cons.injEq] at hfront
        apply protocolLoop_stop fuel (d := 0)
        · rw [seek, findHead_zero (by omega) hfront.1 hfront.2.1]
          simp [hlen]
        · exact .inl rfl
      | cons c tail =>
        rw [List.cons_append, List.cons.injEq] at h
        obtain ⟨rfl, h⟩ := h
        obtain ⟨h0, h1, h2, hlt⟩ := revdata_of_stored hstored
        apply protocolLoop_stop fuel (d := 24)
        · exact seek_reply hlt h0 h1 h2 0
        · by_cases hle : s.uwDataLen ≤ 24
          · exact .inr (.inl hle)
          · exact .inr (.inr (hearly (by omega)))

/-! ## A stream of replies -/

/-- A chunk does no harm: it fits behind what is stored, it does not begin with `01 03` inside a
reply, and a checksum that is looked at too early is not right by chance. -/
def undisturbed (s : State) (c : Chunk) : Bool :=
  s.uwDataLen + c.bytes.length ≤ maxModbusFrameLen && (s.uwDataLen == 0 || !c.isHead) &&
    !(25 ≤ s.uwDataLen + c.bytes.length && s.uwDataLen + c.bytes.length < 29 &&
      checks (s.revdata.write s.uwDataLen c.bytes) 24)

/-- Such a chunk is appended. -/
theorem store_undisturbed {c : Chunk} (hfit : s.uwDataLen + c.bytes.length ≤ maxModbusFrameLen)
    (hhead : s.uwDataLen = 0 ∨ c.isHead = false) :
    store s c =
      { s with
        revdata := s.revdata.write s.uwDataLen c.bytes
        uwDataLen := s.uwDataLen + c.bytes.length } := by
  rw [maxModbusFrameLen] at hfit
  rw [store]
  by_cases hc : c.isHead = true
  · have hzero : s.uwDataLen = 0 := by
      rcases hhead with h | h
      · exact h
      · rw [hc] at h
        cases h
    rw [if_pos hc, hzero, Nat.zero_add, Nat.mod_eq_of_lt (by omega)]
    rfl
  · have hpos : 0 < c.bytes.length := Nat.succ_pos _
    rw [if_neg hc, if_pos (by rw [maxModbusFrameLen]; omega), Nat.mod_eq_of_lt (by omega)]

theorem stored_append {bs : List UInt8} :
    State.stored { s with
      revdata := s.revdata.write s.uwDataLen bs, uwDataLen := s.uwDataLen + bs.length } =
      s.stored ++ bs :=
  Mem.bytes_write_append _ (by omega)

/-- The loop takes all complete replies and leaves the part of the next one. -/
theorem protocolLoop_replies (replies : List Reply) (s : State) (fuel datalen : Nat)
    (h : s.stored ++ more = replies.flatMap Reply.bytes) (hfuel : s.uwDataLen < fuel)
    (hpart : s.uwDataLen < 29 →
      datalen = 0 ∧ (25 ≤ s.uwDataLen → checks s.revdata 24 = false)) :
    ∃ done rest, replies = done ++ rest ∧
      (protocolLoop fuel s datalen).parsed = s.parsed ++ done.map Reply.data ∧
      (protocolLoop fuel s datalen).stored ++ more = rest.flatMap Reply.bytes ∧
      (protocolLoop fuel s datalen).uwDataLen < 29 := by
  induction replies generalizing s fuel datalen with
  | nil =>
    obtain ⟨hnil, rfl⟩ := List.append_eq_nil_iff.mp h
    have hlen : s.uwDataLen = 0 := by
      rw [← length_stored, hnil]
      rfl
    obtain ⟨fuel, rfl⟩ := Nat.exists_eq_succ_of_ne_zero (Nat.ne_zero_of_lt hfuel)
    have hloop : protocolLoop (fuel + 1) s datalen = s := by
      rw [protocolLoop, (hpart (by omega)).1, seek, findHead, hlen]
      simp [hlen]
    rw [hloop]
    exact ⟨[], [], rfl, by simp, by simp [hnil], by omega⟩
  | cons r replies ih =>
    obtain ⟨fuel, rfl⟩ := Nat.exists_eq_succ_of_ne_zero (Nat.ne_zero_of_lt hfuel)
    rw [List.flatMap_cons] at h
    have hlen := length_stored s
    have hr := length_bytes r
    rcases List.append_eq_append_iff.mp h with ⟨missing, hpre, hmore⟩ | ⟨behind, hpre, hmore⟩
    · by_cases hall : missing = []
      · -- exactly this reply
        subst hall
        rw [List.append_nil] at hpre
        obtain ⟨t, ht, hparsed, hloop⟩ :=
          protocolLoop_reply fuel datalen (show s.stored = r.bytes ++ [] by rw [List.append_nil, hpre])
        rw [hloop, if_pos (by decide)]
        refine ⟨[r], replies, rfl, hparsed, ?_, ?_⟩
        · rw [ht]
          exact hmore
        · rw [← length_stored, ht]
          decide
      · -- less than this reply
        have hpos := List.length_pos_iff.mpr hall
        have hshort : s.uwDataLen < 29 := by
          rw [hpre, List.length_append] at hr
          omega
        obtain ⟨rfl, hearly⟩ := hpart hshort
        rw [protocolLoop_part fuel hpre hshort hearly]
        refine ⟨[], r :: replies, rfl, by simp, ?_, hshort⟩
        rw [hmore, List.flatMap_cons, hpre, List.append_assoc]
    · -- this reply and more
      obtain ⟨t, ht, hparsed, hloop⟩ :=
        protocolLoop_reply fuel datalen hpre
      rw [hloop]
      have htLen := length_stored t
      rw [ht] at htLen
      by_cases hlt : behind.length < 29
      · rw [if_pos hlt]
        refine ⟨[r], replies, rfl, hparsed, ?_, by omega⟩
        rw [ht]
        exact hmore.symm
      · rw [if_neg hlt]
        rw [hpre, List.length_append] at hlen
        obtain ⟨done, rest, hsplit, hdone, hrest, hshort⟩ :=
          ih t fuel 24 (by rw [ht]; exact hmore.symm) (by omega) (fun hlt' => by omega)
        refine ⟨r :: done, rest, by rw [hsplit]; rfl, ?_, hrest, hshort⟩
        rw [hdone, hparsed, List.append_assoc]
        rfl

/-- Nothing of the stream is lost: `rest` are the replies that have not been parsed. -/
structure Following (replies : List Reply) (outstanding : List UInt8) (s : State) : Prop where
  split : ∃ done rest, replies = done ++ rest ∧ s.parsed = done.map Reply.data ∧
    s.stored ++ outstanding = rest.flatMap Reply.bytes
  short : s.uwDataLen < 29

theorem following_step {replies : List Reply} {c : Chunk} {outstanding : List UInt8}
    (h : Following replies (c.bytes ++ outstanding) s) (hok : undisturbed s c = true) :
    Following replies outstanding (onDataProtocol s c) := by
  obtain ⟨⟨done, rest, hsplit, hparsed, hstream⟩, hshort⟩ := h
  simp only [undisturbed, Bool.and_eq_true, Bool.or_eq_true, decide_eq_true_eq, beq_iff_eq,
    Bool.not_eq_true', Bool.and_eq_false_iff, decide_eq_false_iff_not] at hok
  obtain ⟨⟨hfit, hhead⟩, hearly⟩ := hok
  have hstore := store_undisturbed hfit hhead
  rw [onDataProtocol, hstore]
  obtain ⟨done', rest', hsplit', hparsed', hstream', hshort'⟩ :=
    protocolLoop_replies rest
      { s with
        revdata := s.revdata.write s.uwDataLen c.bytes
        uwDataLen := s.uwDataLen + c.bytes.length }
      (s.uwDataLen + c.bytes.length + 1) 0
      (by rw [stored_append, List.append_assoc]; exact hstream) (Nat.lt_succ_self _)
      (fun hlt => ⟨rfl, fun hge => by
        rcases hearly with (hc | hc) | hc
        · exact absurd hge hc
        · exact absurd hlt hc
        · exact hc⟩)
  refine ⟨⟨done ++ done', rest', ?_, ?_, hstream'⟩, hshort'⟩
  · rw [hsplit, hsplit', List.append_assoc]
  · rw [hparsed', List.map_append, ← hparsed]

/-- All chunks are. -/
def allUndisturbed : State → List Chunk → Bool
  | _, [] => true
  | s, c :: cs => undisturbed s c && allUndisturbed (onDataProtocol s c) cs

theorem following_receive {replies : List Reply} {chunks : List Chunk}
    (h : Following replies (chunks.flatMap Chunk.bytes) s) (hok : allUndisturbed s chunks = true) :
    Following replies [] (receive s chunks) := by
  induction chunks generalizing s with
  | nil => exact h
  | cons c chunks ih =>
    rw [allUndisturbed, Bool.and_eq_true] at hok
    rw [List.flatMap_cons] at h
    exact ih (following_step h hok.1) hok.2

/-- Replies whose chunks do no harm are parsed, each once and in order. -/
theorem parsed_of_undisturbed {replies : List Reply} {chunks : List Chunk} {mem : Mem}
    (hchunks : chunks.flatMap Chunk.bytes = replies.flatMap Reply.bytes)
    (hok : allUndisturbed (State.init mem) chunks = true) :
    (receive (State.init mem) chunks).parsed = replies.map Reply.data := by
  have hinit : Following replies (chunks.flatMap Chunk.bytes) (State.init mem) :=
    ⟨⟨[], replies, rfl, rfl, hchunks⟩, Nat.succ_pos 28⟩
  obtain ⟨⟨done, rest, hsplit, hparsed, hstream⟩, hshort⟩ := following_receive hinit hok
  rw [List.append_nil] at hstream
  cases rest with
  | nil => rw [hparsed, hsplit, List.append_nil]
  | cons r rest =>
    -- a reply that was not parsed would still be stored
    have hlen := congrArg List.length hstream
    rw [length_stored, List.flatMap_cons, List.length_append, length_bytes] at hlen
    omega

/-! ## How much is stored -/

/-- What a chunk makes of the stored length does not exceed the buffer. -/
def fits (s : State) (c : Chunk) : Bool :=
  if c.isHead then c.bytes.length % 65536 ≤ maxModbusFrameLen
  else maxModbusFrameLen ≤ s.uwDataLen ||
    (s.uwDataLen + c.bytes.length) % 65536 ≤ maxModbusFrameLen

def allFit : State → List Chunk → Bool
  | _, [] => true
  | s, c :: cs => fits s c && allFit (onDataProtocol s c) cs

/-- The stored length stays in its bound, after every copy and after every call. -/
def Bounded : State → List Chunk → Prop
  | _, [] => True
  | s, c :: cs => (store s c).uwDataLen ≤ maxModbusFrameLen ∧
    (onDataProtocol s c).uwDataLen ≤ maxModbusFrameLen ∧ Bounded (onDataProtocol s c) cs

theorem uwDataLen_store_le_iff (c : Chunk) :
    (store s c).uwDataLen ≤ maxModbusFrameLen ↔ fits s c = true := by
  rw [store, fits]
  by_cases hhead : c.isHead = true
  · simp [hhead]
  · by_cases hlt : s.uwDataLen < maxModbusFrameLen
    · simp [hhead, hlt]
    · simp [hhead, hlt, Nat.le_of_not_lt hlt]

theorem bounded_iff (chunks : List Chunk) (s : State) :
    Bounded s chunks ↔ allFit s chunks = true := by
  induction chunks generalizing s with
  | nil => exact ⟨fun _ => rfl, fun _ => trivial⟩
  | cons c chunks ih =>
    rw [Bounded, allFit, Bool.and_eq_true, uwDataLen_store_le_iff, ih]
    constructor
    · rintro ⟨hfit, -, hrest⟩
      exact ⟨hfit, hrest⟩
    · rintro ⟨hfit, hrest⟩
      have hstore := (uwDataLen_store_le_iff c).mpr hfit
      exact ⟨hfit, Nat.le_trans (uwDataLen_protocolLoop_le _ _ _) hstore, hrest⟩

/-- A reply whose channels are all 0, and one that begins with the value 0x0103. -/
def zeroReply : Reply := ⟨List.replicate 24 0, rfl⟩

def headReply : Reply := ⟨[1, 3] ++ List.replicate 22 0, rfl⟩

/-- Cut bytes into chunks of given sizes (less one). -/
def cutChunks : List Nat → List UInt8 → List Chunk
  | n :: sizes, b :: bytes => ⟨b, bytes.take n, 0⟩ :: cutChunks sizes (bytes.drop n)
  | _, _ => []

end ProgrammingPath.Mes.Collection
