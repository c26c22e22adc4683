import ProgrammingPath.Gb28181.PsParse
import ProgrammingPath.Lib.Memory

/-!
# Where `ps_parse_loop` reads and writes

The parser compares four bytes at every position with the start codes and copies whole structures out of the
payload, whatever is left of it. Here it runs on the memory around the payload and leaves a list of its
accesses: the bytes of headers that it reads or prints, and what it hands to `h264_cache_write`.
-/

namespace ProgrammingPath.Gb28181

open ProgrammingPath.Lib

/-! ## The parser on memory -/

/-- `rawdata_length` and `video_flag`. -/
structure PsVars where
  rawdataLength : Int
  videoFlag : Bool
  deriving DecidableEq, Repr

def PsVars.init : PsVars := ⟨0, false⟩

/-- What is touched, from which offset on. -/
inductive Access
  | header (off size : Int)
  | cacheWrite (off size : Int)
  deriving DecidableEq, Repr

/-- One call of `ps_parse_loop` up to its recursive call, with the pointer that this gets. -/
structure Turn where
  accesses : List Access
  vars : PsVars
  next : Option Int

/-- The branch for a PES packet. Numbers without a sign that wrap come back when they are stored in
`rawdata_length`. -/
def pesTurn (mem : Mem) (pend : Nat) (pesptr : Int) : Turn :=
  let pesPacketLength : Int := ntohsAt (mem.bytes pesptr 6) 4
  let pesHeaderDataLength : Int := (mem (pesptr + 6 + 2)).toNat
  let pdata := pesptr + 6 + (3 + pesHeaderDataLength)
  let rawdataLength := pesPacketLength - 3 - pesHeaderDataLength
  let psize := pend - pdata
  let read : List Access :=
    [.header pesptr 4, .header pesptr 6, .header (pesptr + 6 + 2) 1,
      .header pesptr (6 + 3 + pesHeaderDataLength)]
  if rawdataLength ≤ psize then
    ⟨read ++ [.cacheWrite pdata rawdataLength], ⟨0, true⟩, some (pdata + rawdataLength)⟩
  else ⟨read ++ [.cacheWrite pdata psize], ⟨rawdataLength - psize, true⟩, some (pdata + psize)⟩

/-- One call of `ps_parse_loop`. -/
def psTurn (mem : Mem) (pend : Nat) (s : PsVars) (pdata : Int) : Turn :=
  let code := mem.bytes pdata 4
  if pend ≤ pdata then ⟨[], s, none⟩
  else if psIsHeader code then
    ⟨[.header pdata 4, .header (pdata + 13) 1], s, some (pdata + (14 + (mem (pdata + 13) &&& 7).toNat))⟩
  else if psIsShHeader code then
    let headerLength := ntohsAt (mem.bytes pdata 18) 4
    ⟨[.header pdata 4, .header pdata 18], s, some (pdata + (4 + 2 + headerLength))⟩
  else if psIsPsmHeader code then
    let programStreamMapLength := ntohsAt (mem.bytes pdata 36) 4
    ⟨[.header pdata 4, .header pdata 36, .header pdata (4 + 2 + programStreamMapLength)], s,
      some (pdata + (4 + 2 + programStreamMapLength))⟩
  else if psIsPesHeader code then pesTurn mem pend pdata
  else if s.videoFlag ∧ 0 < s.rawdataLength then
    let len := pend - pdata
    if s.rawdataLength < len then
      ⟨[.header pdata 4, .cacheWrite pdata s.rawdataLength], ⟨0, false⟩, some (pdata + s.rawdataLength)⟩
    else ⟨[.header pdata 4, .cacheWrite pdata len], { s with rawdataLength := s.rawdataLength - len }, none⟩
  -- "PS Parse err:[unknow]"
  else ⟨[.header pdata 4], s, none⟩

/-- `ps_parse_loop` with all its calls. -/
def psLoop (mem : Mem) (pend : Nat) : Nat → PsVars → Int → Option (List Access × PsVars)
  | 0, _, _ => none
  | fuel + 1, s, pdata =>
    let t := psTurn mem pend s pdata
    match t.next with
    | none => some (t.accesses, t.vars)
    | some pdata => (psLoop mem pend fuel t.vars pdata).map fun r => (t.accesses ++ r.1, r.2)

/-- The payload of an RTP packet, with the memory around it. -/
structure Payload where
  mem : Mem
  size : Nat

def Payload.bytes (p : Payload) : List UInt8 := p.mem.bytes 0 p.size

/-- `ps_parse_loop` of a payload. -/
def psAccess (s : PsVars) (p : Payload) : Option (List Access × PsVars) :=
  psLoop p.mem p.size (p.size + 1) s 0

/-- Header bytes lie inside so many bytes, and a write has a size from 0 to the number of bytes left. -/
def Access.Inside (pend : Nat) : Access → Prop
  | header off size => 0 ≤ off ∧ off + size ≤ pend
  | cacheWrite off size => 0 ≤ size ∧ size ≤ pend - off

instance (pend : Nat) (a : Access) : Decidable (a.Inside pend) := by
  cases a <;> exact inferInstanceAs (Decidable (_ ∧ _))

/-- The payloads are parsed one by one, and no access leaves its payload. -/
def Contained : PsVars → List Payload → Prop
  | _, [] => True
  | s, p :: ps => ∃ r, psAccess s p = some r ∧ (∀ a ∈ r.1, a.Inside p.size) ∧ Contained r.2 ps

/-! ## What fits -/

inductive Kind
  | pack
  | system
  | streamMap
  | pes
  | unknown
  deriving DecidableEq, Repr

/-- The kind of what begins with these bytes. -/
def kindOf (p : List UInt8) : Kind :=
  if psIsHeader p then .pack
  else if psIsShHeader p then .system
  else if psIsPsmHeader p then .streamMap
  else if psIsPesHeader p then .pes
  else .unknown

namespace Kind

/-- There is room for the structures that are copied, the bytes that are printed and the length of the
rest. -/
def Room (p : List UInt8) : Kind → Prop
  | pack => 14 ≤ p.length
  | system => 18 ≤ p.length
  | streamMap => 36 ≤ p.length ∧ 6 + ntohsAt p 4 ≤ p.length
  | pes => 9 + (p.getD 8 0).toNat ≤ p.length ∧ 3 + (p.getD 8 0).toNat ≤ ntohsAt p 4
  | unknown => True

/-- The fields that are used are there, and the lengths of a PES packet agree. -/
def Readable (p : List UInt8) : Kind → Prop
  | pack => 14 ≤ p.length
  | system | streamMap => 6 ≤ p.length
  | pes => 9 + (p.getD 8 0).toNat ≤ p.length ∧ 3 + (p.getD 8 0).toNat ≤ ntohsAt p 4
  | unknown => True

theorem Room.readable {p : List UInt8} {kind : Kind} (h : kind.Room p) : kind.Readable p := by
  cases kind with
  | pack => exact h
  | system => exact Nat.le_trans (by decide) h
  | streamMap => exact Nat.le_trans (by decide) h.1
  | pes => exact h
  | unknown => trivial

/-- How many bytes are passed over, when so many of a PES packet are expected; nothing behind an unknown
start is looked at. -/
def skip (left : Nat) (p : List UInt8) : Kind → Nat
  | pack => 14 + (p.getD 13 0 &&& 7).toNat
  | system | streamMap | pes => 6 + ntohsAt p 4
  | unknown => if 0 < left then left else p.length

/-- How many bytes of a PES packet are expected then. -/
def left (left : Nat) (p : List UInt8) : Kind → Nat
  | pack | system | streamMap => left
  | pes => 6 + ntohsAt p 4 - p.length
  | unknown => left - p.length

/-- What of a list that goes along with the bytes belongs to the bytes that are written. -/
def written {τ : Type} (left : Nat) (p : List UInt8) (tags : List τ) : Kind → List τ
  | pack | system | streamMap => []
  | pes => (tags.drop (9 + (p.getD 8 0).toNat)).take (ntohsAt p 4 - (3 + (p.getD 8 0).toNat))
  | unknown => tags.take left

end Kind

/-- What of a list that goes along with the bytes of a payload belongs to the bytes that are written.
`fwrite` takes a size below zero for a large one. -/
def Access.written {τ : Type} (tags : List τ) : Access → List τ
  | header _ _ => []
  | cacheWrite off size => if size < 0 then tags.drop off.toNat else (tags.drop off.toNat).take size.toNat

/-- A payload that fits, when so many bytes of a PES packet are expected in front of it and behind it: at each
start there are four bytes and room. -/
inductive Fits : Nat → List UInt8 → Nat → Prop
  | done (left : Nat) : Fits left [] left
  | next {left left' : Nat} {p : List UInt8} (hlen : 4 ≤ p.length) (hroom : (kindOf p).Room p)
    (hrest : Fits ((kindOf p).left left p) (p.drop ((kindOf p).skip left p)) left') : Fits left p left'

/-- Payloads that fit one behind the other. -/
def AllFit : Nat → List (List UInt8) → Prop
  | _, [] => True
  | left, p :: ps => ∃ left', Fits left p left' ∧ AllFit left' ps

/-- How many bytes of a PES packet the parser expects. -/
def PsVars.expected (s : PsVars) : Nat := if s.videoFlag then s.rawdataLength.toNat else 0

section

variable {mem : Mem} {pend : Nat} {s : PsVars} {pdata : Int} {p : List UInt8} {left left' fuel : Nat}

/-! ## One call -/

theorem startsWith_take (code : UInt8) (p : List UInt8) :
    startsWith code (p.take 4) = startsWith code p := by
  rw [startsWith, startsWith, List.take_take, Nat.min_self]

theorem kindOf_take (p : List UInt8) : kindOf (p.take 4) = kindOf p := by
  unfold kindOf psIsHeader psIsShHeader psIsPsmHeader psIsPesHeader
  rw [startsWith_take, startsWith_take, startsWith_take, startsWith_take, startsWith_take]

/-- The two bytes at `i` of bytes that reach so far. -/
theorem ntohsAt_bytes {n m : Nat} (hn : 6 ≤ n) (hm : 6 ≤ m) :
    ntohsAt (mem.bytes pdata n) 4 = ntohsAt (mem.bytes pdata m) 4 := by
  rw [ntohsAt, ntohsAt, Mem.getD_bytes _ (by omega), Mem.getD_bytes _ (by omega),
    Mem.getD_bytes _ (by omega), Mem.getD_bytes _ (by omega)]

/-- What is left of a payload behind a position. -/
def remaining (mem : Mem) (pend : Nat) (pdata : Int) : List UInt8 :=
  mem.bytes pdata (pend - pdata).toNat

theorem length_remaining : (remaining mem pend pdata).length = (pend - pdata).toNat :=
  Mem.length_bytes mem

theorem drop_remaining (n : Nat) :
    (remaining mem pend pdata).drop n = remaining mem pend (pdata + n) := by
  rw [remaining, remaining, Mem.drop_bytes]
  congr 1
  omega

/-- Two positions with the same bytes behind them: they are one, or both behind the end. -/
def SamePlace (pend : Nat) (a b : Int) : Prop := a = b ∨ (pend ≤ a ∧ pend ≤ b)

/-- Behind the end of the payload nothing is left. -/
theorem remaining_eq_nil (h : pend ≤ pdata) : remaining mem pend pdata = [] := by
  rw [remaining, show (pend - pdata).toNat = 0 by omega, Mem.bytes_zero]

theorem SamePlace.remaining {a b : Int} (h : SamePlace pend a b) (mem : Mem) :
    remaining mem pend a = remaining mem pend b := by
  obtain rfl | ⟨ha, hb⟩ := h
  · rfl
  · rw [remaining_eq_nil ha, remaining_eq_nil hb]

theorem SamePlace.drop {a b : Int} (h : SamePlace pend a b) {τ : Type} {tags : List τ}
    (htags : tags.length ≤ pend) : tags.drop a.toNat = tags.drop b.toNat := by
  obtain rfl | ⟨ha, hb⟩ := h
  · rfl
  · rw [List.drop_eq_nil_of_le (by omega), List.drop_eq_nil_of_le (by omega)]

/-- What one call does at a start of this kind, told from what is left of the payload: whether its accesses
are inside, and if the fields can be read, what is written, what is expected then, and where the next call
goes on. -/
structure TurnSpec (mem : Mem) (pend : Nat) (s : PsVars) (pdata : Int) (kind : Kind) (t : Turn) : Prop where
  start : Access.header pdata 4 ∈ t.accesses
  inside : (∀ a ∈ t.accesses, a.Inside pend) ↔ kind.Room (remaining mem pend pdata)
  writes : kind.Readable (remaining mem pend pdata) → ∀ {τ : Type} {tags : List τ}, tags.length = pend →
    t.accesses.flatMap (Access.written tags) =
      kind.written s.expected (remaining mem pend pdata) (tags.drop pdata.toNat)
  vars : kind.Readable (remaining mem pend pdata) →
    t.vars.expected = kind.left s.expected (remaining mem pend pdata)
  next : kind.Readable (remaining mem pend pdata) →
    let place := pdata + kind.skip s.expected (remaining mem pend pdata)
    (t.next = none ∧ pend ≤ place) ∨
      ∃ pdata', t.next = some pdata' ∧ pdata < pdata' ∧ SamePlace pend pdata' place

theorem packTurn_spec (hk : 0 ≤ pdata) (hlen : 4 ≤ (remaining mem pend pdata).length) :
    TurnSpec mem pend s pdata .pack ⟨[.header pdata 4, .header (pdata + 13) 1], s,
      some (pdata + (14 + (mem (pdata + 13) &&& 7).toNat))⟩ := by
  have hlength : (remaining mem pend pdata).length = (pend - pdata).toNat := length_remaining
  refine ⟨by simp, ?_, fun _ _ _ _ => rfl, fun _ => rfl,
    fun hread => Or.inr ⟨_, rfl, by omega, Or.inl ?_⟩⟩
  · simp only [List.forall_mem_cons, List.not_mem_nil, false_imp_iff, implies_true, and_true,
      Access.Inside, Kind.Room]
    omega
  · have hbyte : (remaining mem pend pdata).getD 13 0 = mem (pdata + 13) :=
      Mem.getD_bytes _ (by simp only [Kind.Readable] at hread; omega)
    rw [Kind.skip, hbyte]
    rfl

theorem systemTurn_spec (hk : 0 ≤ pdata) (hlen : 4 ≤ (remaining mem pend pdata).length) :
    TurnSpec mem pend s pdata .system ⟨[.header pdata 4, .header pdata 18], s,
      some (pdata + (4 + 2 + ntohsAt (mem.bytes pdata 18) 4))⟩ := by
  have hlength : (remaining mem pend pdata).length = (pend - pdata).toNat := length_remaining
  refine ⟨by simp, ?_, fun _ _ _ _ => rfl, fun _ => rfl,
    fun hread => Or.inr ⟨_, rfl, by omega, Or.inl ?_⟩⟩
  · simp only [List.forall_mem_cons, List.not_mem_nil, false_imp_iff, implies_true, and_true,
      Access.Inside, Kind.Room]
    omega
  · have hnumber : ntohsAt (mem.bytes pdata 18) 4 = ntohsAt (remaining mem pend pdata) 4 :=
      ntohsAt_bytes (by omega) (by simp only [Kind.Readable] at hread; omega)
    rw [Kind.skip, hnumber]
    rfl

theorem streamMapTurn_spec (hk : 0 ≤ pdata) (hlen : 4 ≤ (remaining mem pend pdata).length) :
    TurnSpec mem pend s pdata .streamMap ⟨[.header pdata 4, .header pdata 36,
      .header pdata (4 + 2 + ntohsAt (mem.bytes pdata 36) 4)], s,
      some (pdata + (4 + 2 + ntohsAt (mem.bytes pdata 36) 4))⟩ := by
  have hlength : (remaining mem pend pdata).length = (pend - pdata).toNat := length_remaining
  have hnumber (hsix : 6 ≤ (remaining mem pend pdata).length) :
      ntohsAt (mem.bytes pdata 36) 4 = ntohsAt (remaining mem pend pdata) 4 :=
    ntohsAt_bytes (by omega) (by omega)
  refine ⟨by simp, ?_, fun _ _ _ _ => rfl, fun _ => rfl,
    fun hread => Or.inr ⟨_, rfl, by omega, Or.inl ?_⟩⟩
  · simp only [List.forall_mem_cons, List.not_mem_nil, false_imp_iff, implies_true, and_true,
      Access.Inside, Kind.Room]
    by_cases hsix : 6 ≤ (remaining mem pend pdata).length
    · rw [hnumber hsix]
      omega
    · omega
  · rw [Kind.skip, hnumber hread]
    rfl

theorem pesTurn_spec (hk : 0 ≤ pdata) (hlen : 4 ≤ (remaining mem pend pdata).length) :
    TurnSpec mem pend s pdata .pes (pesTurn mem pend pdata) := by
  have hlength : (remaining mem pend pdata).length = (pend - pdata).toNat := length_remaining
  have hstart : Access.header pdata 4 ∈ (pesTurn mem pend pdata).accesses := by
    rw [pesTurn]
    split <;> simp
  by_cases hnine : 9 ≤ (remaining mem pend pdata).length
  · have hsize : ntohsAt (mem.bytes pdata 6) 4 = ntohsAt (remaining mem pend pdata) 4 :=
      ntohsAt_bytes (by omega) (by omega)
    have hopes : mem (pdata + 6 + 2) = (remaining mem pend pdata).getD 8 0 := by
      rw [remaining, Mem.getD_bytes _ (by omega)]
      congr 1
      omega
    obtain ⟨opesLen, hopesLen⟩ : ∃ n, n = ((remaining mem pend pdata).getD 8 0).toNat := ⟨_, rfl⟩
    obtain ⟨size, hpesLen⟩ : ∃ n, n = ntohsAt (remaining mem pend pdata) 4 := ⟨_, rfl⟩
    have hroom : Kind.pes.Room (remaining mem pend pdata) ↔
        9 + opesLen ≤ (remaining mem pend pdata).length ∧ 3 + opesLen ≤ size := by
      rw [hopesLen, hpesLen]
      rfl
    have hread : Kind.pes.Readable (remaining mem pend pdata) ↔
        9 + opesLen ≤ (remaining mem pend pdata).length ∧ 3 + opesLen ≤ size := hroom
    have hskip : Kind.pes.skip s.expected (remaining mem pend pdata) = 6 + size := by
      rw [hpesLen]
      rfl
    have hleft : Kind.pes.left s.expected (remaining mem pend pdata) =
        6 + size - (remaining mem pend pdata).length := by
      rw [hpesLen]
      rfl
    refine ⟨hstart, ?_, ?_, ?_, ?_⟩
    · rw [hroom, pesTurn, hsize, hopes, ← hopesLen, ← hpesLen]
      split
      all_goals
        simp only [List.cons_append, List.nil_append, List.forall_mem_cons, List.not_mem_nil,
          false_imp_iff, implies_true, and_true, Access.Inside]
        omega
    · rw [hread]
      intro h τ tags htags
      rw [Kind.written, ← hopesLen, ← hpesLen, List.drop_drop, pesTurn, hsize, hopes, ← hopesLen,
        ← hpesLen]
      have hplace : (pdata + 6 + (3 + opesLen)).toNat = pdata.toNat + (9 + opesLen) := by omega
      split
      · simp only [List.cons_append, List.nil_append, List.flatMap_cons, List.flatMap_nil,
          Access.written, List.append_nil]
        rw [if_neg (by omega), hplace]
        congr 1
        omega
      · simp only [List.cons_append, List.nil_append, List.flatMap_cons, List.flatMap_nil,
          Access.written, List.append_nil]
        rw [if_neg (by omega), hplace, List.take_of_length_le, List.take_of_length_le]
        · rw [List.length_drop]
          omega
        · rw [List.length_drop]
          omega
    · rw [hread, hleft, pesTurn, hsize, hopes, ← hopesLen, ← hpesLen]
      intro h
      split
      · show 0 = _
        omega
      · show ((size - 3 - opesLen : Int) - (pend - (pdata + 6 + (3 + opesLen)))).toNat = _
        omega
    · rw [hread, hskip, pesTurn, hsize, hopes, ← hopesLen, ← hpesLen]
      intro h
      refine Or.inr ?_
      split
      · exact ⟨_, rfl, by omega, Or.inl (by push_cast; omega)⟩
      · exact ⟨_, rfl, by omega, Or.inr (by push_cast; omega)⟩
  · have hnot : ¬Kind.pes.Room (remaining mem pend pdata) := fun hroom => by
      have : 9 + _ ≤ (remaining mem pend pdata).length := hroom.1
      omega
    refine ⟨hstart, iff_of_false (fun hall => ?_) hnot, fun h => absurd h hnot, fun h => absurd h hnot,
      fun h => absurd h hnot⟩
    have := hall (.header (pdata + 6 + 2) 1) (by rw [pesTurn]; split <;> simp)
    simp only [Access.Inside] at this
    omega

/-- The bytes are the rest of a PES packet, or nobody looks at them. -/
theorem unknownTurn_spec (hk : 0 ≤ pdata) (hlen : 4 ≤ (remaining mem pend pdata).length) :
    TurnSpec mem pend s pdata .unknown
      (if s.videoFlag ∧ 0 < s.rawdataLength then
        if s.rawdataLength < pend - pdata then
          ⟨[.header pdata 4, .cacheWrite pdata s.rawdataLength], ⟨0, false⟩, some (pdata + s.rawdataLength)⟩
        else ⟨[.header pdata 4, .cacheWrite pdata (pend - pdata)],
          { s with rawdataLength := s.rawdataLength - (pend - pdata) }, none⟩
      else ⟨[.header pdata 4], s, none⟩) := by
  have hlength : (remaining mem pend pdata).length = (pend - pdata).toNat := length_remaining
  have hinside (size : Int) (h : 0 ≤ size ∧ size ≤ pend - pdata) :
      (∀ a ∈ [Access.header pdata 4, .cacheWrite pdata size], a.Inside pend) ↔
        Kind.unknown.Room (remaining mem pend pdata) := by
    refine iff_of_true ?_ trivial
    simp only [List.forall_mem_cons, List.not_mem_nil, false_imp_iff, implies_true, and_true,
      Access.Inside]
    omega
  by_cases hmore : s.videoFlag ∧ 0 < s.rawdataLength
  · have hexpected : s.expected = s.rawdataLength.toNat := if_pos hmore.1
    rw [if_pos hmore]
    split
    · refine ⟨by simp, hinside _ (by omega), fun _ τ tags htags => ?_, fun _ => ?_,
        fun _ => Or.inr ⟨_, rfl, by omega, Or.inl ?_⟩⟩
      · simp only [List.flatMap_cons, List.flatMap_nil, Access.written, List.append_nil,
          List.nil_append]
        rw [if_neg (by omega), Kind.written, hexpected]
      · show 0 = s.expected - _
        omega
      · rw [Kind.skip, if_pos (by omega)]
        omega
    · refine ⟨by simp, hinside _ (by omega), fun _ τ tags htags => ?_, fun _ => ?_,
        fun _ => Or.inl ⟨rfl, ?_⟩⟩
      · simp only [List.flatMap_cons, List.flatMap_nil, Access.written, List.append_nil,
          List.nil_append]
        rw [if_neg (by omega), Kind.written, List.take_of_length_le, List.take_of_length_le]
        · rw [List.length_drop]
          omega
        · rw [List.length_drop]
          omega
      · show (if s.videoFlag then (s.rawdataLength - (pend - pdata)).toNat else 0) = s.expected - _
        rw [if_pos hmore.1]
        omega
      · rw [Kind.skip, if_pos (by omega)]
        omega
  · have hexpected : s.expected = 0 := by
      rw [PsVars.expected]
      split
      · next hflag =>
        have : ¬0 < s.rawdataLength := fun hpos => hmore ⟨hflag, hpos⟩
        omega
      · rfl
    rw [if_neg hmore]
    refine ⟨by simp, iff_of_true ?_ trivial, fun _ τ tags _ => ?_, fun _ => ?_,
      fun _ => Or.inl ⟨rfl, ?_⟩⟩
    · simp only [List.forall_mem_cons, List.not_mem_nil, false_imp_iff, implies_true, and_true,
        Access.Inside]
      omega
    · rw [Kind.written, hexpected, List.take_zero]
      rfl
    · show s.expected = s.expected - _
      omega
    · rw [Kind.skip, if_neg (by omega)]
      omega

theorem psTurn_spec (hk : 0 ≤ pdata) (hlen : 4 ≤ (remaining mem pend pdata).length) :
    TurnSpec mem pend s pdata (kindOf (remaining mem pend pdata)) (psTurn mem pend s pdata) := by
  have hlength : (remaining mem pend pdata).length = (pend - pdata).toNat := length_remaining
  have hcode : mem.bytes pdata 4 = (remaining mem pend pdata).take 4 :=
    (Mem.take_bytes mem (by omega)).symm
  have hkind : kindOf (mem.bytes pdata 4) = kindOf (remaining mem pend pdata) := by
    rw [hcode, kindOf_take]
  rw [psTurn, if_neg (by omega), ← hkind, kindOf]
  split
  · exact packTurn_spec hk hlen
  · split
    · exact systemTurn_spec hk hlen
    · split
      · exact streamMapTurn_spec hk hlen
      · split
        · exact pesTurn_spec hk hlen
        · exact unknownTurn_spec hk hlen

/-! ## All calls -/

/-- The loop comes to its end with accesses inside and so many bytes expected. -/
def LoopInside (mem : Mem) (pend fuel : Nat) (s : PsVars) (pdata : Int) (left' : Nat) : Prop :=
  ∃ r, psLoop mem pend fuel s pdata = some r ∧ (∀ a ∈ r.1, a.Inside pend) ∧ r.2.expected = left'

theorem loopInside_return (hnext : (psTurn mem pend s pdata).next = none) :
    LoopInside mem pend (fuel + 1) s pdata left' ↔
      (∀ a ∈ (psTurn mem pend s pdata).accesses, a.Inside pend) ∧
        (psTurn mem pend s pdata).vars.expected = left' := by
  simp [LoopInside, psLoop, hnext]

theorem loopInside_call {pdata' : Int} (hnext : (psTurn mem pend s pdata).next = some pdata') :
    LoopInside mem pend (fuel + 1) s pdata left' ↔
      (∀ a ∈ (psTurn mem pend s pdata).accesses, a.Inside pend) ∧
        LoopInside mem pend fuel (psTurn mem pend s pdata).vars pdata' left' := by
  simp only [LoopInside, psLoop, hnext, Option.map_eq_some_iff]
  constructor
  · rintro ⟨_, ⟨r, hr, rfl⟩, hall, hleft⟩
    exact ⟨fun a ha => hall a (List.mem_append_left _ ha), r, hr,
      fun a ha => hall a (List.mem_append_right _ ha), hleft⟩
  · rintro ⟨hall, r, hr, hrest, hleft⟩
    refine ⟨_, ⟨r, hr, rfl⟩, fun a ha => ?_, hleft⟩
    rcases List.mem_append.mp ha with ha | ha
    · exact hall a ha
    · exact hrest a ha

/-- The accesses of a call are inside when those of the loop are. -/
theorem LoopInside.turn (h : LoopInside mem pend (fuel + 1) s pdata left') :
    ∀ a ∈ (psTurn mem pend s pdata).accesses, a.Inside pend := by
  cases hnext : (psTurn mem pend s pdata).next with
  | none => exact ((loopInside_return hnext).mp h).1
  | some pdata' => exact ((loopInside_call hnext).mp h).1

theorem fits_nil_iff : Fits left [] left' ↔ left = left' := by
  constructor
  · rintro (_ | ⟨hlen, -, -⟩)
    · rfl
    · exact absurd hlen (by decide)
  · rintro rfl
    exact .done left

/-- A payload that is not empty fits when its start does, and what follows. -/
theorem fits_iff (hne : p ≠ []) :
    Fits left p left' ↔ 4 ≤ p.length ∧ (kindOf p).Room p ∧
      Fits ((kindOf p).left left p) (p.drop ((kindOf p).skip left p)) left' := by
  constructor
  · rintro (_ | ⟨hlen, hroom, hrest⟩)
    · exact absurd rfl hne
    · exact ⟨hlen, hroom, hrest⟩
  · exact fun h => .next h.1 h.2.1 h.2.2

/-- The fuel is enough, and the accesses are inside when what is left of the payload fits. -/
theorem loopInside_iff (hfuel : (pend - pdata).toNat < fuel) (hk : 0 ≤ pdata) :
    LoopInside mem pend fuel s pdata left' ↔ Fits s.expected (remaining mem pend pdata) left' := by
  induction fuel generalizing s pdata with
  | zero => omega
  | succ fuel ih =>
    have hlength : (remaining mem pend pdata).length = (pend - pdata).toNat := length_remaining
    by_cases hend : pend ≤ pdata
    · have hturn : psTurn mem pend s pdata = ⟨[], s, none⟩ := by rw [psTurn, if_pos hend]
      rw [loopInside_return (by rw [hturn]), remaining_eq_nil hend, fits_nil_iff, hturn]
      simp
    · have hne : remaining mem pend pdata ≠ [] := List.ne_nil_of_length_pos (by omega)
      rw [fits_iff hne]
      by_cases hlen : 4 ≤ (remaining mem pend pdata).length
      · have hspec := psTurn_spec (s := s) hk hlen
        rw [and_iff_right hlen, ← hspec.inside]
        by_cases hinside : ∀ a ∈ (psTurn mem pend s pdata).accesses, a.Inside pend
        · have hroom := hspec.inside.mp hinside
          rw [← hspec.vars hroom.readable, drop_remaining]
          rcases hspec.next hroom.readable with ⟨hnone, hplace⟩ | ⟨pdata', hsome, hlt, hplace⟩
          · rw [loopInside_return hnone, remaining_eq_nil hplace, fits_nil_iff]
          · rw [loopInside_call hsome, ← hplace.remaining, ih (by omega) (by omega)]
        · exact iff_of_false (fun h => hinside h.turn) fun h => hinside h.1
      · refine iff_of_false (fun h => ?_) fun h => hlen h.1
        -- the four bytes of the start are not all there
        have hmem : Access.header pdata 4 ∈ (psTurn mem pend s pdata).accesses := by
          rw [psTurn, if_neg hend]
          split
          · simp
          · split
            · simp
            · split
              · simp
              · split
                · rw [pesTurn]
                  split <;> simp
                · split
                  · simp only
                    split <;> simp
                  · simp
        have hinside := h.turn _ hmem
        simp only [Access.Inside] at hinside
        omega

theorem psAccess_iff (q : Payload) :
    (∃ r, psAccess s q = some r ∧ (∀ a ∈ r.1, a.Inside q.size) ∧ r.2.expected = left') ↔
      Fits s.expected q.bytes left' := by
  have hbytes : remaining q.mem q.size 0 = q.bytes := by
    rw [remaining, Payload.bytes]
    congr 1
  have hfuel : ((q.size : Int) - 0).toNat < q.size + 1 := by omega
  rw [← hbytes, ← loopInside_iff hfuel (Int.le_refl 0)]
  rfl

/-- Every call that has another one behind it goes on. -/
theorem psTurn_next_lt {pdata' : Int} (hnext : (psTurn mem pend s pdata).next = some pdata') :
    pdata < pdata' := by
  rw [psTurn] at hnext
  split at hnext
  · cases hnext
  split at hnext
  · cases hnext
    omega
  split at hnext
  · cases hnext
    omega
  split at hnext
  · cases hnext
    omega
  split at hnext
  · rw [pesTurn] at hnext
    split at hnext
    · cases hnext
      omega
    · cases hnext
      omega
  split at hnext
  · next hmore =>
    simp only at hnext
    split at hnext
    · cases hnext
      omega
    · cases hnext
  · cases hnext

/-- The calls come to an end, also on a payload that they leave: as many as there are bytes left, and one
more, are enough. -/
theorem psLoop_ends (mem : Mem) (pend : Nat) (s : PsVars) (pdata : Int) :
    ∃ r, ∀ fuel, (pend - pdata).toNat < fuel → psLoop mem pend fuel s pdata = some r := by
  induction hn : (pend - pdata).toNat using Nat.strong_induction_on generalizing s pdata with
  | _ n ih =>
    cases hnext : (psTurn mem pend s pdata).next with
    | none =>
      refine ⟨((psTurn mem pend s pdata).accesses, (psTurn mem pend s pdata).vars), fun fuel hfuel => ?_⟩
      obtain ⟨fuel, rfl⟩ := Nat.exists_eq_succ_of_ne_zero (Nat.ne_zero_of_lt hfuel)
      rw [psLoop, hnext]
    | some pdata' =>
      have hlt := psTurn_next_lt hnext
      have hinside : pdata < pend := by
        by_contra hend
        rw [psTurn, if_pos (Int.not_lt.mp hend)] at hnext
        cases hnext
      obtain ⟨r, hr⟩ := ih (pend - pdata').toNat (by omega) (psTurn mem pend s pdata).vars pdata' rfl
      refine ⟨((psTurn mem pend s pdata).accesses ++ r.1, r.2), fun fuel hfuel => ?_⟩
      obtain ⟨fuel, rfl⟩ := Nat.exists_eq_succ_of_ne_zero (Nat.ne_zero_of_lt hfuel)
      rw [psLoop, hnext]
      dsimp only
      rw [hr fuel (by omega)]
      rfl

theorem psAccess_isSome (s : PsVars) (q : Payload) : (psAccess s q).isSome := by
  obtain ⟨r, hr⟩ := psLoop_ends q.mem q.size s 0
  rw [psAccess, hr _ (by omega)]
  rfl

theorem contained_iff_from (s : PsVars) (ps : List Payload) :
    Contained s ps ↔ AllFit s.expected (ps.map Payload.bytes) := by
  induction ps generalizing s with
  | nil => exact Iff.rfl
  | cons q ps ih =>
    constructor
    · rintro ⟨r, hr, hall, hrest⟩
      exact ⟨r.2.expected, (psAccess_iff q).mp ⟨r, hr, hall, rfl⟩, (ih r.2).mp hrest⟩
    · rintro ⟨left', hfits, hrest⟩
      obtain ⟨r, hr, hall, rfl⟩ := (psAccess_iff q).mpr hfits
      exact ⟨r, hr, hall, (ih r.2).mpr hrest⟩

end

/-- **Which streams are contained.** The accesses of every call stay inside the payloads exactly when the
payloads fit one behind the other. -/
theorem contained_iff (ps : List Payload) : Contained .init ps ↔ AllFit 0 (ps.map Payload.bytes) :=
  contained_iff_from .init ps

/-- **The recursion ends**, whatever the payload, the bytes around it and the two variables are: a call has
no other behind it, or one that starts later, and one call more than there are bytes is enough. -/
theorem psParse_ends (s : PsVars) (q : Payload) :
    (∃ r, ∀ fuel, q.size < fuel → psLoop q.mem q.size fuel s 0 = some r) ∧
      ∀ s' pdata pdata', (psTurn q.mem q.size s' pdata).next = some pdata' → pdata < pdata' ∨ q.size ≤ pdata' := by
  refine ⟨?_, fun s' pdata pdata' hnext => .inl (psTurn_next_lt hnext)⟩
  obtain ⟨r, hr⟩ := psLoop_ends q.mem q.size s 0
  exact ⟨r, fun fuel hfuel => hr fuel (by omega)⟩

/-- A system header without anything behind: eighteen bytes are copied out of the six. -/
theorem not_contained_system : ¬∀ ps : List Payload, Contained .init ps := by
  intro hall
  obtain ⟨r, hr, hinside, -⟩ := hall [⟨Mem.zero.write 0 [0, 0, 1, 0xBB, 0, 0], 6⟩]
  have htrace : (psAccess .init ⟨Mem.zero.write 0 [0, 0, 1, 0xBB, 0, 0], 6⟩).map Prod.fst =
      some [.header 0 4, .header 0 18] := by decide +kernel
  rw [hr, Option.map_some, Option.some.injEq] at htrace
  have hcopy : (Access.header 0 18).Inside 6 := hinside _ (by rw [htrace]; simp)
  exact absurd hcopy (by decide)

end ProgrammingPath.Gb28181
