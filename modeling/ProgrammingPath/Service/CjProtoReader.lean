import Mathlib.Data.Nat.Bitwise
import ProgrammingPath.Service.CjProto

/-!
# What the server reads (`CJProto_server.c`)

`machine` says what `loop_handle_read` does with what happens at the socket, byte for byte, without the pieces
and the calls: of an interruption inside the payload it makes a length that goes on, unless the length had
four bytes. The calls do what the machine does (`reads_iff`), and `reads_right_iff` says when the packet that
is handed on is the one that was written.
-/

namespace ProgrammingPath.CjProto

open ProgrammingPath.Lib

/-! ## The machine -/

/-- Where the reader is: before the type, behind some digits of the length, behind some bytes of the payload, or
at the end of the packet. -/
inductive Phase
  | start
  | length (type : UInt8) (digits value : Nat)
  | payload (type : UInt8) (digits value : Nat) (data : List UInt8)
  | packet (type : UInt8) (value : Nat) (data : List UInt8)

/-- Behind these bytes of the payload, or at the end of the packet if they are all. -/
def Phase.behind (type : UInt8) (digits value : Nat) (data : List UInt8) : Phase :=
  if data.length = value then .packet type value data else .payload type digits value data

/-- One byte, or an interruption. -/
def Phase.next : Phase → Option UInt8 → Phase
  | .start, none => .start
  | .start, some byte => .length byte 0 0
  | .length type digits value, none => .length type digits value
  | .length type digits value, some byte =>
    let value := (byte &&& 0x7F).toNat <<< (7 * digits) ||| value
    if byte &&& 0x80 ≠ 0 ∧ digits + 1 < 4 then .length type (digits + 1) value
    else .behind type (digits + 1) value []
  | .payload type digits value data, none =>
    if digits < 4 then .length type digits value else .payload type digits value data
  | .payload type digits value data, some byte =>
    .behind type digits value (data ++ [byte])
  | .packet type value data, _ => .packet type value data

/-- The packet that is there: its type, its length and its bytes. -/
def Phase.packet? : Phase → Option (UInt8 × Nat × List UInt8)
  | .packet type value data => some (type, value, data)
  | _ => none

/-- The first packet, and what happens behind it. -/
def machine : List (Option UInt8) → Phase → Option ((UInt8 × Nat × List UInt8) × List (Option UInt8))
  | [], phase => phase.packet?.map fun packet => (packet, [])
  | event :: events, phase =>
    match phase.packet? with
    | some packet => some (packet, event :: events)
    | none => machine events (phase.next event)

theorem machine_packet (events : List (Option UInt8)) (type : UInt8) (value : Nat) (data : List UInt8) :
    machine events (.packet type value data) = some ((type, value, data), events) := by
  cases events
  · rfl
  · rfl

/-! ## What the calls do -/

/-- The packet is that of a reader behind some bytes of the payload. -/
structure Packet.InPayload (p : Packet) (type : UInt8) (digits value : Nat) (data : List UInt8) : Prop where
  type_eq : p.type = type.toNat
  type_ne : type ≠ 0
  digits_ne : digits ≠ 0
  size : p.remlengthSize = if digits < 4 then -(digits : Int) else 4
  length : p.remlength = value
  pos : p.rempos = data.length
  data_eq : p.remdata = data
  readlen : data.length + p.remreadlen = value

/-- The packet is what a call finds in this phase. Inside the payload it knows it only when the length had four
bytes. -/
def Packet.Waits (p : Packet) : Phase → Prop
  | .start => p = .zero
  | .length type digits value =>
    p.type = type.toNat ∧ type ≠ 0 ∧ digits < 4 ∧ p.remlengthSize = -(digits : Int) ∧ p.remlength = value ∧
      (digits = 0 → value = 0)
  | .payload type digits value data => 4 ≤ digits ∧ data.length < value ∧ p.InPayload type digits value data
  | .packet _ _ _ => False

/-- The first byte is a type: not 0, which stands for a type that was not read yet. -/
def Begins (phase : Phase) (s : Sock) : Prop :=
  phase = .start → ∀ byte bytes, s.stream = byte :: bytes → byte ≠ 0

/-- What a call that returns leaves behind: the machine goes on where it will be called again, and something
has arrived or nothing arrives any more; or the machine does not get to a packet. -/
def Returns (s : Sock) (phase : Phase) (code : Int) (p' : Packet) (s' : Sock) : Prop :=
  (code = 0 ∧ s'.Steady ∧ (s'.arrivals.length < s.arrivals.length ∨ s'.arrivals = []) ∧
    ∃ phase', p'.Waits phase' ∧ Begins phase' s' ∧ machine s.events phase = machine s'.events phase') ∨
  (code = -1 ∧ machine s.events phase = none)

variable {p p' : Packet} {s s' : Sock} {phase phase' : Phase} {type : UInt8} {digits value : Nat} {data : List UInt8}

/-- What happened before does not matter. -/
theorem Returns.trans {code : Int} (h : Returns s' phase' code p s) {s₀ : Sock}
    (hle : s'.arrivals.length ≤ s₀.arrivals.length) (heq : machine s₀.events phase = machine s'.events phase') :
    Returns s₀ phase code p s := by
  rcases h with ⟨hcode, hs, harrivals, phase'', hwaits, hbegins, hmachine⟩ | ⟨hcode, hnone⟩
  · exact .inl ⟨hcode, hs, harrivals.imp_left fun hlt => Nat.lt_of_lt_of_le hlt hle, phase'', hwaits, hbegins,
      heq.trans hmachine⟩
  · exact .inr ⟨hcode, heq.trans hnone⟩

/-- A call that finds nothing. -/
theorem returns_nil (hs : s.Steady) (hnil : s.arrivals = []) (hwaits : p.Waits phase) : Returns s phase 0 p s := by
  refine .inl ⟨rfl, hs, .inr hnil, phase, hwaits, fun _ byte bytes hstream => ?_, rfl⟩
  unfold Sock.stream at hstream
  rw [hnil] at hstream
  exact absurd hstream (List.cons_ne_nil _ _).symm

theorem begins_of_ne (h : phase ≠ .start) (s : Sock) : Begins phase s := fun heq => absurd heq h

theorem machine_nil (hnil : s.arrivals = []) (hphase : phase.packet? = none) : machine s.events phase = none := by
  unfold Sock.events
  rw [hnil]
  show phase.packet?.map _ = none
  rw [hphase]
  rfl

/-- The read of one byte. -/
theorem readByte_cases (hs : s.Steady) (p : Packet) (next : UInt8 → Sock → Step) :
    (∃ byte s', readByte p s next = next byte s' ∧ s.events = some byte :: s'.events ∧ s'.Steady ∧
      s'.arrivals.length ≤ s.arrivals.length) ∨
    (∃ s', readByte p s next = .ret 0 p s' ∧ s.events = none :: s'.events ∧ s'.Steady ∧
      s'.arrivals.length < s.arrivals.length) ∨
    (s.arrivals = [] ∧ (readByte p s next = .ret 0 p s ∨ readByte p s next = .ret (-1) p s)) := by
  unfold readByte
  rcases hs.recv Nat.one_pos with ⟨hnil, hrecv | hrecv⟩ | ⟨s', hrecv, hevents, hs', hlt⟩ |
    ⟨c, s', hrecv, hne, hle, hevents, hs', harrivals⟩
  · rw [hrecv]
    exact .inr (.inr ⟨hnil, .inl rfl⟩)
  · rw [hrecv]
    exact .inr (.inr ⟨hnil, .inr rfl⟩)
  · rw [hrecv]
    exact .inr (.inl ⟨s', rfl, hevents, hs', hlt⟩)
  · rw [hrecv]
    obtain ⟨byte, rfl⟩ := List.length_eq_one_iff.mp (Nat.le_antisymm hle (List.length_pos_iff.mpr hne))
    exact .inl ⟨byte, s', rfl, hevents, hs', harrivals⟩

/-- The type. -/
theorem readType_spec (hs : s.Steady) (hp : p.Waits phase) (hstart : Begins phase s) :
    (∃ code p' s', readType p s = .ret code p' s' ∧ Returns s phase code p' s') ∨
    ∃ p' s' phase', readType p s = .go p' s' ∧ p'.Waits phase' ∧ phase' ≠ .start ∧ s'.Steady ∧
      s'.arrivals.length ≤ s.arrivals.length ∧ machine s.events phase = machine s'.events phase' := by
  cases phase with
  | start =>
    have hzero : p = .zero := hp
    subst hzero
    show (∃ code p' s', readByte .zero s _ = .ret code p' s' ∧ _) ∨ ∃ p' s' phase', readByte .zero s _ = _ ∧ _
    rcases readByte_cases hs .zero fun byte s => .go { Packet.zero with type := byte.toNat } s with
      ⟨byte, s', hread, hevents, hs', hle⟩ | ⟨s', hread, hevents, hs', hlt⟩ | ⟨hnil, hread | hread⟩
    · have hne : byte ≠ 0 := hstart rfl byte s'.stream (by rw [s.stream_eq, hevents, s'.stream_eq]; rfl)
      refine .inr ⟨_, s', .length byte 0 0, hread, ⟨rfl, hne, by decide, rfl, rfl, fun _ => rfl⟩, ?_, hs', hle, ?_⟩
      · exact Phase.noConfusion
      · rw [hevents]
        rfl
    · refine .inl ⟨0, _, s', hread, .inl ⟨rfl, hs', .inl hlt, .start, rfl, fun _ byte bytes hstream => ?_, ?_⟩⟩
      · have hsame : s.stream = s'.stream := by
          rw [s.stream_eq, hevents, s'.stream_eq]
          rfl
        exact hstart rfl byte bytes (hsame.trans hstream)
      · rw [hevents]
        rfl
    · exact .inl ⟨0, _, s, hread, returns_nil hs hnil rfl⟩
    · exact .inl ⟨-1, _, s, hread, .inr ⟨rfl, machine_nil hnil rfl⟩⟩
  | length type digits value =>
    have hne : p.type ≠ 0 := fun h0 => hp.2.1 (UInt8.toNat_inj.mp (hp.1.symm.trans h0))
    exact .inr ⟨p, s, _, if_neg hne, hp, Phase.noConfusion, hs, Nat.le_refl _, rfl⟩
  | payload type digits value data =>
    have hp' := hp.2.2
    have hne : p.type ≠ 0 := fun h0 => hp'.type_ne (UInt8.toNat_inj.mp (hp'.type_eq.symm.trans h0))
    exact .inr ⟨p, s, _, if_neg hne, hp, Phase.noConfusion, hs, Nat.le_refl _, rfl⟩
  | packet type value data => exact absurd hp id

/-- The length: the packet has one more digit. -/
theorem addByte_eq (hp : p.Waits (.length type digits value)) (byte : UInt8) :
    p.addByte byte =
      { p with
        remlength := (byte &&& 0x7F).toNat <<< (7 * digits) ||| value
        remlengthSize := if digits + 1 < 4 then -(digits + 1 : Nat) else 4 } := by
  obtain ⟨-, -, hdigits, hsize, hlength, hzero⟩ := hp
  unfold Packet.addByte
  rw [hsize, hlength]
  match digits, hdigits with
  | 0, _ =>
    rw [hzero rfl, Nat.or_zero]
    rfl
  | 1, _ => rfl
  | 2, _ => rfl
  | 3, _ => rfl

/-- The loop over the bytes of the length. -/
theorem readLength_spec (left : Nat) (hs : s.Steady) (hp : p.Waits (.length type digits value))
    (hleft : 4 ≤ digits + left) :
    (∃ code p' s', readLength left p s = .ret code p' s' ∧ Returns s (.length type digits value) code p' s') ∨
    ∃ p' s', ∃ digits' : Nat, readLength left p s = .go p' s' ∧ p'.type = type.toNat ∧
      digits' ≠ 0 ∧ p'.remlengthSize = (if digits' < 4 then -(digits' : Int) else 4) ∧ s'.Steady ∧
      s'.arrivals.length ≤ s.arrivals.length ∧
      machine s.events (.length type digits value) = machine s'.events (.behind type digits' p'.remlength []) := by
  induction left generalizing p s digits value with
  | zero => exact absurd hp.2.2.1 (Nat.not_lt.mpr hleft)
  | succ left ih =>
    rcases readByte_cases hs p fun byte s =>
      if byte &&& 0x80 ≠ 0 ∧ (p.addByte byte).remlengthSize ≤ 0 then readLength left (p.addByte byte) s
      else .go (p.addByte byte) s with
      ⟨byte, s', hread, hevents, hs', hle⟩ | ⟨s', hread, hevents, hs', hlt⟩ | ⟨hnil, hread | hread⟩
    · have hstep : readLength (left + 1) p s =
          if byte &&& 0x80 ≠ 0 ∧ (p.addByte byte).remlengthSize ≤ 0 then readLength left (p.addByte byte) s'
          else .go (p.addByte byte) s' := hread
      have hadd := addByte_eq hp byte
      have htype : (p.addByte byte).type = type.toNat := hp.1
      have hsize : (p.addByte byte).remlengthSize = if digits + 1 < 4 then -((digits + 1 : Nat) : Int) else 4 :=
        congrArg Packet.remlengthSize hadd
      have hlength : (p.addByte byte).remlength = (byte &&& 0x7F).toNat <<< (7 * digits) ||| value :=
        congrArg Packet.remlength hadd
      have hknown : (p.addByte byte).remlengthSize ≤ 0 ↔ digits + 1 < 4 := by
        rw [hsize]
        split <;> omega
      have hnext : machine s.events (.length type digits value) =
          machine s'.events (Phase.next (.length type digits value) (some byte)) := by
        rw [hevents]
        rfl
      rw [hstep]
      unfold Phase.next at hnext
      dsimp only at hnext
      by_cases hmore : byte &&& 0x80 ≠ 0 ∧ digits + 1 < 4
      · rw [if_pos hmore] at hnext
        rw [if_pos ⟨hmore.1, hknown.mpr hmore.2⟩]
        have hp' : (p.addByte byte).Waits
            (.length type (digits + 1) ((byte &&& 0x7F).toNat <<< (7 * digits) ||| value)) :=
          ⟨htype, hp.2.1, hmore.2, hsize.trans (if_pos hmore.2), hlength, fun h0 => absurd h0 (Nat.succ_ne_zero _)⟩
        rcases ih hs' hp' (by omega) with ⟨code, p₁, s₁, hcode, hret⟩ |
          ⟨p₁, s₁, digits₁, hgo, htype₁, hne₁, hsize₁, hs₁, hle₁, hmachine⟩
        · exact .inl ⟨code, p₁, s₁, hcode, hret.trans hle hnext⟩
        · exact .inr ⟨p₁, s₁, digits₁, hgo, htype₁, hne₁, hsize₁, hs₁, Nat.le_trans hle₁ hle, hnext.trans hmachine⟩
      · rw [if_neg hmore] at hnext
        rw [if_neg fun hboth => hmore ⟨hboth.1, hknown.mp hboth.2⟩]
        refine .inr ⟨_, s', digits + 1, rfl, htype, Nat.succ_ne_zero _, hsize, hs', hle, ?_⟩
        rw [hlength]
        exact hnext
    · refine .inl ⟨0, p, s', hread, .inl ⟨rfl, hs', .inl hlt, _, hp, begins_of_ne Phase.noConfusion s', ?_⟩⟩
      rw [hevents]
      rfl
    · exact .inl ⟨0, p, s, hread, returns_nil hs hnil hp⟩
    · exact .inl ⟨-1, p, s, hread, .inr ⟨rfl, machine_nil hnil rfl⟩⟩

theorem behind_of_lt (h : data.length < value) :
    Phase.behind type digits value data = .payload type digits value data := if_neg (Nat.ne_of_lt h)

/-- Bytes of the payload one after the other. -/
theorem machine_bytes {c : List UInt8} (h : data.length + c.length ≤ value) (events : List (Option UInt8)) :
    machine (c.map some ++ events) (.behind type digits value data) =
      machine events (.behind type digits value (data ++ c)) := by
  induction c generalizing data with
  | nil => rw [List.append_nil, List.map_nil, List.nil_append]
  | cons byte c ih =>
    rw [List.length_cons] at h
    have hlen : (data ++ [byte]).length + c.length ≤ value := by
      rw [List.length_append, List.length_singleton]
      omega
    have hstep : machine ((byte :: c).map some ++ events) (.behind type digits value data) =
        machine (c.map some ++ events) (.behind type digits value (data ++ [byte])) := by
      rw [behind_of_lt (by omega)]
      rfl
    rw [hstep, ih hlen, List.append_assoc, List.singleton_append]

theorem next_payload_ne_start : (Phase.payload type digits value data).next none ≠ .start := by
  show (if digits < 4 then Phase.length type digits value else .payload type digits value data) ≠ .start
  split
  · exact Phase.noConfusion
  · exact Phase.noConfusion

theorem next_payload_none : (Phase.payload type digits value data).next none =
    if digits < 4 then .length type digits value else .payload type digits value data := rfl

/-- What an interruption inside the payload makes of it. -/
theorem Packet.InPayload.waits (hp : p.InPayload type digits value data) (hlt : data.length < value) :
    p.Waits ((Phase.payload type digits value data).next none) := by
  rw [next_payload_none]
  by_cases hdigits : digits < 4
  · rw [if_pos hdigits]
    exact ⟨hp.type_eq, hp.type_ne, hdigits, hp.size.trans (if_pos hdigits), hp.length,
      fun h0 => absurd h0 hp.digits_ne⟩
  · rw [if_neg hdigits]
    exact ⟨Nat.not_lt.mp hdigits, hlt, hp⟩

/-- The loop over the payload. -/
theorem readPayload_spec {turns : Nat} (hs : s.Steady) (hp : p.InPayload type digits value data)
    (hturns : p.remreadlen ≤ turns) :
    (∃ code p' s', readPayload turns p s = .ret code p' s' ∧
      Returns s (.behind type digits value data) code p' s') ∨
    ∃ p' s', readPayload turns p s = .go p' s' ∧ p'.type = type.toNat ∧
      machine s.events (.behind type digits value data) = some ((type, p'.remlength, p'.remdata), s'.events) := by
  have hread := hp.readlen
  induction turns generalizing p s data with
  | zero =>
    have hdone : data.length = value := by omega
    refine .inr ⟨p, s, rfl, hp.type_eq, ?_⟩
    rw [hp.length, hp.data_eq, Phase.behind, if_pos hdone]
    exact machine_packet ..
  | succ turns ih =>
    unfold readPayload
    by_cases hzero : p.remreadlen = 0
    · have hdone : data.length = value := by omega
      rw [if_pos hzero]
      refine .inr ⟨p, s, rfl, hp.type_eq, ?_⟩
      rw [hp.length, hp.data_eq, Phase.behind, if_pos hdone]
      exact machine_packet ..
    · rw [if_neg hzero]
      have hlt : data.length < value := by omega
      have hwaits := hp.waits hlt
      rw [behind_of_lt hlt]
      rcases hs.recv (Nat.pos_of_ne_zero hzero) with ⟨hnil, hrecv | hrecv⟩ | ⟨s', hrecv, hevents, hs', hless⟩ |
        ⟨c, s', hrecv, hne, hle, hevents, hs', harrivals⟩
      · rw [hrecv]
        refine .inl ⟨0, p, s, rfl, .inl ⟨rfl, hs, .inr hnil, _, hwaits, begins_of_ne next_payload_ne_start s, ?_⟩⟩
        have hphase : ((Phase.payload type digits value data).next none).packet? = none := by
          rw [next_payload_none]
          split
          · rfl
          · rfl
        rw [machine_nil hnil rfl, machine_nil hnil hphase]
      · rw [hrecv]
        exact .inl ⟨-1, p, s, rfl, .inr ⟨rfl, machine_nil hnil rfl⟩⟩
      · rw [hrecv]
        refine .inl ⟨0, p, s', rfl, .inl ⟨rfl, hs', .inl hless, _, hwaits,
          begins_of_ne next_payload_ne_start s', ?_⟩⟩
        rw [hevents]
        rfl
      · rw [hrecv]
        have hmachine : machine s.events (.payload type digits value data) =
            machine s'.events (.behind type digits value (data ++ c)) := by
          rw [← behind_of_lt hlt, hevents]
          exact machine_bytes (by omega) _
        obtain ⟨byte, c, rfl⟩ := List.exists_cons_of_ne_nil hne
        let p' : Packet :=
          { p with
            remdata := p.remdata.take p.rempos ++ (byte :: c)
            rempos := p.rempos + (byte :: c).length
            remreadlen := p.remreadlen - (byte :: c).length }
        have hlength : (data ++ byte :: c).length = data.length + (byte :: c).length := List.length_append
        have hp' : p'.InPayload type digits value (data ++ byte :: c) := by
          refine ⟨hp.type_eq, hp.type_ne, hp.digits_ne, hp.size, hp.length, ?_, ?_, ?_⟩
          · rw [hlength, ← hp.pos]
          · show p.remdata.take p.rempos ++ (byte :: c) = data ++ byte :: c
            rw [hp.data_eq, hp.pos, List.take_length]
          · show (data ++ byte :: c).length + (p.remreadlen - (byte :: c).length) = value
            omega
        have hturns' : p'.remreadlen ≤ turns := by
          have hpos : 0 < (byte :: c).length := Nat.succ_pos _
          show p.remreadlen - (byte :: c).length ≤ turns
          omega
        rcases ih hs' hp' hturns' hp'.readlen with ⟨code, p₁, s₁, hcode, hret⟩ | ⟨p₁, s₁, hgo, htype, hpacket⟩
        · exact .inl ⟨code, p₁, s₁, hcode, hret.trans harrivals hmachine⟩
        · exact .inr ⟨p₁, s₁, hgo, htype, hmachine.trans hpacket⟩

/-- The length and the room for the payload. -/
theorem readHead_spec (hs : s.Steady) (hp : p.Waits phase) (hphase : phase ≠ .start) :
    (∃ code p' s', readHead p s = .ret code p' s' ∧ Returns s phase code p' s') ∨
    ∃ p' s' type digits value data, readHead p s = .go p' s' ∧ p'.InPayload type digits value data ∧ s'.Steady ∧
      s'.arrivals.length ≤ s.arrivals.length ∧
      machine s.events phase = machine s'.events (.behind type digits value data) := by
  unfold readHead
  cases phase with
  | start => exact absurd rfl hphase
  | length type digits value =>
    have hsize : p.remlengthSize ≤ 0 := by
      rw [hp.2.2.2.1]
      omega
    rw [if_pos hsize]
    rcases readLength_spec 4 hs hp (Nat.le_add_left 4 digits) with ⟨code, p', s', hcode, hret⟩ |
      ⟨p', s', digits', hgo, htype, hne, hsize', hs', hle, hmachine⟩
    · rw [hcode]
      exact .inl ⟨code, p', s', rfl, hret⟩
    · rw [hgo]
      refine .inr ⟨_, s', type, digits', p'.remlength, [], rfl, ?_, hs', hle, hmachine⟩
      exact ⟨htype, hp.2.1, hne, hsize', rfl, rfl, rfl, Nat.zero_add _⟩
  | payload type digits value data =>
    obtain ⟨hdigits, hlt, hin⟩ := hp
    have hsize : ¬p.remlengthSize ≤ 0 := by
      rw [hin.size, if_neg (Nat.not_lt.mpr hdigits)]
      decide
    rw [if_neg hsize]
    refine .inr ⟨p, s, type, digits, value, data, rfl, hin, hs, Nat.le_refl _, ?_⟩
    rw [behind_of_lt hlt]
  | packet type value data => exact absurd hp id

/-- **One call** does what the machine does, up to the next interruption or the packet. -/
theorem loopHandleRead_spec (hs : s.Steady) (hp : p.Waits phase) (hstart : Begins phase s) :
    (∃ code p' s', loopHandleRead p s = .ret code p' s' ∧ Returns s phase code p' s') ∨
    ∃ p' s' type, loopHandleRead p s = .go p' s' ∧ p'.type = type.toNat ∧
      machine s.events phase = some ((type, p'.remlength, p'.remdata), s'.events) := by
  unfold loopHandleRead
  rcases readType_spec hs hp hstart with ⟨code, p', s', hcode, hret⟩ |
    ⟨p₁, s₁, phase₁, hgo₁, hp₁, hne₁, hs₁, hle₁, hmachine₁⟩
  · rw [hcode]
    exact .inl ⟨code, p', s', rfl, hret⟩
  · rw [hgo₁]
    show (∃ code p' s', (readHead p₁ s₁).bind _ = _ ∧ _) ∨ ∃ p' s' type, (readHead p₁ s₁).bind _ = _ ∧ _
    rcases readHead_spec hs₁ hp₁ hne₁ with ⟨code, p', s', hcode, hret⟩ |
      ⟨p₂, s₂, type, digits, value, data, hgo₂, hp₂, hs₂, hle₂, hmachine₂⟩
    · rw [hcode]
      exact .inl ⟨code, p', s', rfl, hret.trans hle₁ hmachine₁⟩
    · rw [hgo₂]
      have hmachine := hmachine₁.trans hmachine₂
      rcases readPayload_spec hs₂ hp₂ (Nat.le_refl _) with ⟨code, p', s', hcode, hret⟩ |
        ⟨p', s', hgo, htype, hpacket⟩
      · exact .inl ⟨code, p', s', hcode, hret.trans (Nat.le_trans hle₂ hle₁) hmachine⟩
      · exact .inr ⟨p', s', type, hgo, htype, hmachine.trans hpacket⟩

theorem reads_go (h : loopHandleRead p s = .go p' s') (calls : Nat) : reads (calls + 1) p s = some (p', s') := by
  rw [reads, h]

theorem reads_ret {code : Int} (h : loopHandleRead p s = .ret code p' s') (calls : Nat) :
    reads (calls + 1) p s = if code = 0 then reads calls p' s' else none := by
  rw [reads, h]

/-- Where nothing arrives any more there will be no packet. -/
theorem reads_nil (hs : s.Steady) (hnil : s.arrivals = []) (hp : p.Waits phase) (calls : Nat) :
    reads calls p s = none := by
  induction calls generalizing p s phase with
  | zero => rfl
  | succ calls ih =>
    have hbegins : Begins phase s := by
      intro _ byte bytes hstream
      unfold Sock.stream at hstream
      rw [hnil] at hstream
      exact absurd hstream (List.cons_ne_nil _ _).symm
    have hphase : phase.packet? = none := by
      cases phase with
      | packet => exact absurd hp id
      | _ => rfl
    rcases loopHandleRead_spec hs hp hbegins with ⟨code, p', s', hcode, hret⟩ | ⟨p', s', type, -, -, hpacket⟩
    · rw [reads_ret hcode]
      rcases hret with ⟨rfl, hs', harrivals, phase', hp', -, -⟩ | ⟨rfl, -⟩
      · rw [if_pos rfl]
        refine ih hs' ?_ hp'
        refine harrivals.resolve_left fun hlt => ?_
        rw [hnil] at hlt
        exact Nat.not_lt_zero _ hlt
      · exact if_neg (by decide)
    · rw [machine_nil hnil hphase] at hpacket
      exact absurd hpacket (Option.some_ne_none _).symm

/-- **All calls.** They hand on the packet that the machine finds, and stop where it does. -/
theorem reads_iff (hs : s.Steady) (hp : p.Waits phase) (hstart : Begins phase s) (type : UInt8) (value : Nat)
    (data : List UInt8) (events : List (Option UInt8)) :
    (∃ calls p' s', reads calls p s = some (p', s') ∧ p'.type = type.toNat ∧ p'.remlength = value ∧
      p'.remdata = data ∧ s'.events = events) ↔
      machine s.events phase = some ((type, value, data), events) := by
  induction hn : s.arrivals.length using Nat.strong_induction_on generalizing p s phase with
  | _ n ih =>
    subst hn
    rcases loopHandleRead_spec hs hp hstart with ⟨code, p₁, s₁, hcode, hret⟩ | ⟨p₁, s₁, type₁, hgo, htype, hpacket⟩
    · have hsucc (calls : Nat) := reads_ret hcode calls
      rcases hret with ⟨rfl, hs₁, harrivals, phase₁, hp₁, hstart₁, hmachine⟩ | ⟨rfl, hnone⟩
      · rw [hmachine]
        rcases harrivals with hlt | hnil
        · rw [← ih _ hlt hs₁ hp₁ hstart₁ rfl]
          constructor
          · rintro ⟨calls, p', s', hreads, hrest⟩
            cases calls with
            | zero => exact absurd hreads (Option.some_ne_none _).symm
            | succ calls => exact ⟨calls, p', s', (hsucc calls).symm.trans hreads, hrest⟩
          · rintro ⟨calls, p', s', hreads, hrest⟩
            exact ⟨calls + 1, p', s', (hsucc calls).trans hreads, hrest⟩
        · have hphase : phase₁.packet? = none := by
            cases phase₁ with
            | packet => exact absurd hp₁ id
            | _ => rfl
          rw [machine_nil hnil hphase]
          refine iff_of_false ?_ (Option.some_ne_none _).symm
          rintro ⟨calls, p', s', hreads, -⟩
          cases calls with
          | zero => exact Option.some_ne_none _ hreads.symm
          | succ calls =>
            have hcalls : reads calls p₁ s₁ = some (p', s') := (hsucc calls).symm.trans hreads
            rw [reads_nil hs₁ hnil hp₁] at hcalls
            exact Option.some_ne_none _ hcalls.symm
      · rw [hnone]
        refine iff_of_false ?_ (Option.some_ne_none _).symm
        rintro ⟨calls, p', s', hreads, -⟩
        cases calls with
        | zero => exact Option.some_ne_none _ hreads.symm
        | succ calls => exact Option.some_ne_none _ ((hsucc calls).symm.trans hreads).symm
    · have hsucc (calls : Nat) := reads_go hgo calls
      rw [hpacket]
      constructor
      · rintro ⟨calls, p', s', hreads, htype', rfl, rfl, rfl⟩
        cases calls with
        | zero => exact absurd hreads (Option.some_ne_none _).symm
        | succ calls =>
          cases (hsucc calls).symm.trans hreads
          rw [UInt8.toNat_inj.mp (htype.symm.trans htype')]
      · intro heq
        cases heq
        exact ⟨1, p₁, s₁, hsucc 0, htype, rfl, rfl, rfl⟩

end ProgrammingPath.CjProto
