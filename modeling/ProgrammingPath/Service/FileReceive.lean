import ProgrammingPath.Lib.Run

/-!
# The file receive server

`client_read_message_headpack` reads a head byte, a length, a head message and then the file, as far as the socket
has them, and goes on where it was when it is called again. A step is one read of the socket with what the code does
until it comes to the next one. The last block of the file is read with the wrong size, and `rc`, which is left from
the head, is asked where `ret` was meant; `received_iff` says what that comes to.
-/

namespace ProgrammingPath.FileReceive

open ProgrammingPath.Lib

/-! ## The session -/

/-- The fields of `struct tcp_client` for the head (`_msg_pos` is the length of `headMsg`) and for the file, and what
was written to it. -/
structure Session where
  packHead : UInt8
  msgLen : Nat
  msgLenSize : Int
  headMsg : List UInt8
  bodyType : Nat
  fileSize : Nat
  pos : Nat
  fp : Bool
  file : List UInt8

/-- The session after `client_accept`. -/
def Session.init : Session := ⟨0, 0, 0, [], 0, 0, 0, false, []⟩

/-- Where a call waits for the socket. -/
inductive Place
  | head
  | len
  | msg
  | body
  | other
  deriving DecidableEq

/-- The four bytes at the start of an `unsigned long`. -/
def le32 : List UInt8 → Nat
  | [] => 0
  | b :: bs => b.toNat + 256 * le32 bs

/-- The head message is complete: it is a file if its first byte says so. `none` when the size is not in it. -/
def Session.headDone (s : Session) : Option Session :=
  let s := { s with bodyType := 1 }
  if s.msgLen > 0 ∧ s.headMsg.head? = some 1 then
    if s.headMsg.length < 35 then none
    else
      some { s with
        fileSize := le32 ((s.headMsg.drop 31).take 4)
        pos := 0
        headMsg := []
        msgLen := 0
        msgLenSize := 0
        packHead := 0
        fp := true }
  else some s

/-- The loop over the file: it goes on, or the file is closed. -/
def Session.bodyLoop (s : Session) : Option (Session × Place) :=
  if s.pos < s.fileSize then some (s, .body)
  else if s.fp then some ({ s with fp := false, bodyType := 2 }, .other)
  else none

/-- The loop over the head message. -/
def Session.msgLoop (s : Session) : Option (Session × Place) :=
  if s.headMsg.length < s.msgLen then some (s, .msg)
  else s.headDone.bind Session.bodyLoop

/-- The loop over the two bytes of the length. -/
def Session.lenLoop (s : Session) : Option (Session × Place) :=
  if s.msgLenSize ≤ 0 then some (s, .len) else s.msgLoop

/-- The beginning of a call. -/
def Session.enter (s : Session) : Option (Session × Place) :=
  if s.bodyType = 0 then
    if s.packHead = 0 then some (s, .head) else s.lenLoop
  else if s.bodyType = 1 then s.bodyLoop
  else if s.bodyType = 2 then some (s, .other)
  else none

/-- How many bytes are asked for. -/
def Session.wanted (s : Session) : Place → Nat
  | .head | .len | .other => 1
  | .msg => s.msgLen - s.headMsg.length
  | .body =>
    -- `sizeof(buff) - need_size`, with 100 bytes in `buff`
    let needSize := s.fileSize - s.pos
    if needSize < 100 then 100 - needSize else 100

/-- A byte of the length: the third place of the counter marks the end. -/
def Session.lenByte (s : Session) (b : UInt8) : Session :=
  let size := s.msgLenSize - 1
  { s with
    msgLen := (s.msgLen * 256 + b.toNat) % 65536
    msgLenSize := if size ≤ -2 then -size else size }

/-- The end of the loop over the length: memory is taken for the head message. -/
def Session.afterLen (s : Session) : Option (Session × Place) :=
  if s.msgLenSize ≤ 0 then some (s, .len) else { s with headMsg := [] }.msgLoop

/-- Bytes were read: what becomes of them, and where the call is next; it returns after a read behind the file. -/
def Session.got (s : Session) (data : List UInt8) : Place → Option (Session × Option Place)
  | .head => ({ s with packHead := data.headD 0 }.lenLoop).map fun (s, place) => (s, some place)
  | .len => (s.lenByte (data.headD 0)).afterLen.map fun (s, place) => (s, some place)
  | .msg => ({ s with headMsg := s.headMsg ++ data }.msgLoop).map fun (s, place) => (s, some place)
  | .body =>
    ({ s with file := s.file ++ data, pos := s.pos + data.length }.bodyLoop).map
      fun (s, place) => (s, some place)
  | .other => some (s, none)

/-- What the socket answers to a read: nothing there, or so many bytes. -/
inductive Answer
  | again
  | bytes (n : Nat)

/-- The session, the bytes that the client sent and that were not read, where a call is if one is running, with its
`rc`, and what the calls returned. -/
structure Conn where
  session : Session
  unread : List UInt8
  call : Option (Place × Int)
  returned : List Int

/-- Where the next read is, and `rc`. If no call is running, one begins. -/
def Conn.current (c : Conn) : Option (Session × Place × Int) :=
  match c.call with
  | some (place, rc) => some (c.session, place, rc)
  | none => c.session.enter.map fun (s, place) => (s, place, 0)

/-- The read of a block of the file has its own variable. -/
def rcAfter (place : Place) (n : Nat) (rc : Int) : Int := if place = .body then rc else n

/-- One read. The session is gone after a call that returned -1. -/
def step (c : Conn) (answer : Answer) : Option Conn :=
  if -1 ∈ c.returned then none
  else
    match c.current with
    | none => none
    | some (s, place, rc) =>
      match answer with
      | .again =>
        some { c with
          session := s
          call := none
          -- behind the loop over the file it is `rc` that is compared with 0
          returned := c.returned ++ [if place = .body ∧ rc = 0 then -1 else 0] }
      | .bytes n =>
        if 0 < n ∧ n ≤ s.wanted place ∧ n ≤ c.unread.length then
          (s.got (c.unread.take n) place).map fun (s, next) =>
            { session := s
              unread := c.unread.drop n
              call := next.map fun next => (next, rcAfter place n rc)
              returned := if next = none then c.returned ++ [0] else c.returned }
        else none

/-! ## An upload -/

/-- What a client sends: a head byte, the length of the head message, the message with the size of the file, the
file, and whatever comes after it. -/
structure Upload where
  headByte : UInt8
  hi : UInt8
  lo : UInt8
  msg : List UInt8
  file : List UInt8
  further : List UInt8
  headByte_ne : headByte ≠ 0
  length_msg : msg.length = 256 * hi.toNat + lo.toNat
  length_ge : 35 ≤ msg.length
  kind : msg.head? = some 1
  announced : le32 ((msg.drop 31).take 4) = file.length

def Upload.stream (u : Upload) : List UInt8 := u.headByte :: u.hi :: u.lo :: (u.msg ++ (u.file ++ u.further))

def Conn.init (u : Upload) : Conn := ⟨Session.init, u.stream, none, []⟩

/-- The file has what it should have so far, all of it when the session is behind it, and no call failed. -/
structure Received (u : Upload) (c : Conn) : Prop where
  file : c.session.file <+: u.file
  complete : c.session.bodyType = 2 → c.session.file = u.file
  pos_le : c.session.pos ≤ c.session.fileSize
  returned : -1 ∉ c.returned

/-- A read of the file brings no more than the file, and one that brings nothing is in a call that has read something
of the head. -/
def Fits (c : Conn) : Answer → Prop
  | .again => c.session.bodyType = 1 → ∃ place rc, c.call = some (place, rc) ∧ rc ≠ 0
  | .bytes n => c.session.bodyType = 1 → n ≤ c.session.fileSize - c.session.pos

/-! ## Where the session is -/

/-- What was read of the upload, what is left of it, and where the next read is. -/
inductive Stage (u : Upload) : Session → List UInt8 → Place → Prop
  | head : Stage u Session.init u.stream .head
  | hi : Stage u ⟨u.headByte, 0, 0, [], 0, 0, 0, false, []⟩
      (u.hi :: u.lo :: (u.msg ++ (u.file ++ u.further))) .len
  | lo : Stage u ⟨u.headByte, u.hi.toNat, -1, [], 0, 0, 0, false, []⟩
      (u.lo :: (u.msg ++ (u.file ++ u.further))) .len
  | msg {done rest : List UInt8} (hmsg : u.msg = done ++ rest) (hne : rest ≠ []) :
      Stage u ⟨u.headByte, u.msg.length, 2, done, 0, 0, 0, false, []⟩
        (rest ++ (u.file ++ u.further)) .msg
  | body {done rest : List UInt8} (hfile : u.file = done ++ rest) (hne : rest ≠ []) :
      Stage u ⟨0, 0, 0, [], 1, u.file.length, done.length, true, done⟩ (rest ++ u.further) .body
  | other (unread : List UInt8) :
      Stage u ⟨0, 0, 0, [], 2, u.file.length, u.file.length, false, u.file⟩ unread .other

variable {u : Upload} {s : Session} {unread : List UInt8} {place : Place}

/-- The loop over the file at any point of it. -/
theorem bodyLoop_stage {done rest : List UInt8} (hfile : u.file = done ++ rest) :
    ∃ s place, Session.bodyLoop ⟨0, 0, 0, [], 1, u.file.length, done.length, true, done⟩ = some (s, place) ∧
      Stage u s (rest ++ u.further) place := by
  have hlen := congrArg List.length hfile
  rw [List.length_append] at hlen
  rw [Session.bodyLoop]
  cases rest with
  | nil =>
    rw [List.append_nil] at hfile
    -- nothing is left: the file is closed
    rw [if_neg (by rw [hfile]; exact Nat.lt_irrefl _), if_pos rfl, ← hfile]
    exact ⟨_, _, rfl, .other _⟩
  | cons b rest =>
    rw [if_pos (show done.length < u.file.length by rw [hlen, List.length_cons]; omega)]
    exact ⟨_, _, rfl, .body hfile (List.cons_ne_nil b rest)⟩

/-- The loop over the head message at any point of it. -/
theorem msgLoop_stage {done rest : List UInt8} (hmsg : u.msg = done ++ rest) :
    ∃ s place, Session.msgLoop ⟨u.headByte, u.msg.length, 2, done, 0, 0, 0, false, []⟩ = some (s, place) ∧
      Stage u s (rest ++ (u.file ++ u.further)) place := by
  have hlen := congrArg List.length hmsg
  rw [List.length_append] at hlen
  rw [Session.msgLoop]
  cases rest with
  | nil =>
    rw [List.append_nil] at hmsg
    rw [if_neg (by rw [hmsg]; exact Nat.lt_irrefl _), ← hmsg]
    -- the head message is complete, and the loop over the file begins
    have hpos : u.msg.length > 0 := Nat.lt_of_lt_of_le (Nat.zero_lt_succ 34) u.length_ge
    rw [Session.headDone, if_pos ⟨hpos, u.kind⟩, if_neg (Nat.not_lt.mpr u.length_ge)]
    show ∃ s place, Session.bodyLoop ⟨0, 0, 0, [], 1, le32 ((u.msg.drop 31).take 4), 0, true, []⟩ =
      some (s, place) ∧ _
    rw [u.announced]
    have hstart : u.file = [] ++ u.file := rfl
    exact bodyLoop_stage hstart
  | cons b rest =>
    rw [if_pos (show done.length < u.msg.length by rw [hlen, List.length_cons]; omega)]
    exact ⟨_, _, rfl, .msg hmsg (List.cons_ne_nil b rest)⟩

/-- A call begins where the last one stopped. -/
theorem Stage.enter (h : Stage u s unread place) : s.enter = some (s, place) := by
  cases h with
  | head => rfl
  | hi =>
    rw [Session.enter, if_pos rfl, if_neg u.headByte_ne]
    rfl
  | lo =>
    rw [Session.enter, if_pos rfl, if_neg u.headByte_ne]
    rfl
  | @msg done rest hmsg hne =>
    have hlt : done.length < u.msg.length := by
      rw [hmsg, List.length_append]
      exact Nat.lt_add_of_pos_right (List.length_pos_of_ne_nil hne)
    have hnot : ¬(2 : Int) ≤ 0 := by decide
    rw [Session.enter, if_pos rfl, if_neg u.headByte_ne, Session.lenLoop, if_neg hnot, Session.msgLoop,
      if_pos hlt]
  | @body done rest hfile hne =>
    have hlt : done.length < u.file.length := by
      rw [hfile, List.length_append]
      exact Nat.lt_add_of_pos_right (List.length_pos_of_ne_nil hne)
    rw [Session.enter, if_neg Nat.one_ne_zero, if_pos rfl, Session.bodyLoop, if_pos hlt]
  | other unread => rfl

/-- The first byte of the length is its high one. -/
theorem lenByte_hi : Session.lenByte ⟨u.headByte, 0, 0, [], 0, 0, 0, false, []⟩ u.hi =
    ⟨u.headByte, u.hi.toNat, -1, [], 0, 0, 0, false, []⟩ := by
  have hlt := u.hi.toNat_lt
  simp only [Session.lenByte, Nat.zero_mul, Nat.zero_add, Nat.mod_eq_of_lt (show u.hi.toNat < 65536 by omega)]
  rfl

/-- The second one completes it. -/
theorem lenByte_lo : Session.lenByte ⟨u.headByte, u.hi.toNat, -1, [], 0, 0, 0, false, []⟩ u.lo =
    ⟨u.headByte, u.msg.length, 2, [], 0, 0, 0, false, []⟩ := by
  have hhi := u.hi.toNat_lt
  have hlo := u.lo.toNat_lt
  simp only [Session.lenByte, u.length_msg, Nat.mul_comm u.hi.toNat 256,
    Nat.mod_eq_of_lt (show 256 * u.hi.toNat + u.lo.toNat < 65536 by omega)]
  rfl

/-- A read within the rest of a part. -/
theorem split_within {part done rest : List UInt8} {n : Nat} (hpart : part = done ++ rest)
    (hn : n ≤ part.length - done.length) :
    n ≤ rest.length ∧ part = (done ++ rest.take n) ++ rest.drop n := by
  constructor
  · rw [hpart, List.length_append] at hn
    omega
  · rw [List.append_assoc, List.take_append_drop, hpart]

/-- A read that stays within its part of the upload leads to the next place. -/
theorem Stage.got {n : Nat} (h : Stage u s unread place) (hpos : 0 < n) (hwanted : n ≤ s.wanted place)
    (hfits : s.bodyType = 1 → n ≤ s.fileSize - s.pos) :
    ∃ s' next place', s.got (unread.take n) place = some (s', next) ∧ Stage u s' (unread.drop n) place' ∧
      (next = none ∨ next = some place') := by
  cases h with
  | head =>
    obtain rfl : n = 1 := Nat.le_antisymm hwanted hpos
    exact ⟨_, _, _, rfl, .hi, .inr rfl⟩
  | hi =>
    obtain rfl : n = 1 := Nat.le_antisymm hwanted hpos
    have hgot : Session.got ⟨u.headByte, 0, 0, [], 0, 0, 0, false, []⟩ [u.hi] .len =
        (Session.lenByte ⟨u.headByte, 0, 0, [], 0, 0, 0, false, []⟩ u.hi).afterLen.map
          fun (s, place) => (s, some place) := rfl
    rw [lenByte_hi] at hgot
    exact ⟨_, _, _, hgot, .lo, .inr rfl⟩
  | lo =>
    obtain rfl : n = 1 := Nat.le_antisymm hwanted hpos
    have hstart : u.msg = [] ++ u.msg := rfl
    obtain ⟨s', place', hs', hstage⟩ := msgLoop_stage hstart
    refine ⟨s', some place', place', ?_, hstage, .inr rfl⟩
    have hnot : ¬(2 : Int) ≤ 0 := by decide
    show Option.map _ (Session.lenByte ⟨u.headByte, u.hi.toNat, -1, [], 0, 0, 0, false, []⟩ u.lo).afterLen = _
    rw [lenByte_lo, Session.afterLen, if_neg hnot, hs']
    rfl
  | @msg done rest hmsg hne =>
    -- the code asks for no more than the head message
    obtain ⟨hle, hsplit⟩ := split_within hmsg hwanted
    obtain ⟨s', place', hs', hstage⟩ := msgLoop_stage hsplit
    rw [List.take_append_of_le_length hle, List.drop_append_of_le_length hle]
    refine ⟨s', some place', place', ?_, hstage, .inr rfl⟩
    show Option.map _ (Session.msgLoop
      ⟨u.headByte, u.msg.length, 2, done ++ rest.take n, 0, 0, 0, false, []⟩) = _
    rw [hs']
    rfl
  | @body done rest hfile hne =>
    -- here that is not so, and the hypothesis has to say it
    obtain ⟨hle, hsplit⟩ := split_within hfile (hfits rfl)
    obtain ⟨s', place', hs', hstage⟩ := bodyLoop_stage hsplit
    rw [List.take_append_of_le_length hle, List.drop_append_of_le_length hle]
    refine ⟨s', some place', place', ?_, hstage, .inr rfl⟩
    show Option.map _ (Session.bodyLoop
      ⟨0, 0, 0, [], 1, u.file.length, done.length + (rest.take n).length, true, done ++ rest.take n⟩) = _
    rw [← List.length_append, hs']
    rfl
  | other unread => exact ⟨_, none, _, rfl, .other _, .inl rfl⟩

/-- A read over the end of the file. -/
theorem Stage.got_over {n : Nat} (h : Stage u s unread place) (hbody : s.bodyType = 1)
    (hover : ¬n ≤ s.fileSize - s.pos) (hunread : n ≤ unread.length) :
    ∃ s', s.got (unread.take n) place = some (s', some .other) ∧ s'.fileSize < s'.pos := by
  cases h with
  | head | hi | lo | msg | other => cases hbody
  | @body done rest hfile hne =>
    have hover : ¬n ≤ u.file.length - done.length := hover
    have htake : (List.take n (rest ++ u.further)).length = n := by
      rw [List.length_take]
      exact Nat.min_eq_left hunread
    have hnot : ¬done.length + (List.take n (rest ++ u.further)).length < u.file.length := by
      rw [htake]
      omega
    simp only [Session.got, Session.bodyLoop, if_neg hnot, if_true]
    refine ⟨_, rfl, ?_⟩
    show u.file.length < done.length + (List.take n (rest ++ u.further)).length
    rw [htake]
    omega

/-! ## Every run -/

/-- The session is at a place of the upload, a call that is running is there too, and no call has failed. -/
def AtPlace (u : Upload) (c : Conn) : Prop :=
  ∃ place, Stage u c.session c.unread place ∧ (∀ q rc, c.call = some (q, rc) → q = place) ∧
    -1 ∉ c.returned

theorem AtPlace.received {c : Conn} (h : AtPlace u c) : Received u c := by
  obtain ⟨session, unread, call, returned⟩ := c
  obtain ⟨place, hstage, -, hreturned⟩ := h
  cases hstage with
  | head | hi | lo | msg => exact ⟨List.nil_prefix, nofun, Nat.le_refl 0, hreturned⟩
  | @body done rest hfile =>
    refine ⟨⟨rest, hfile.symm⟩, nofun, ?_, hreturned⟩
    show done.length ≤ u.file.length
    rw [hfile, List.length_append]
    exact Nat.le_add_right _ _
  | other => exact ⟨List.prefix_refl _, fun _ => rfl, Nat.le_refl _, hreturned⟩

/-- The next read is at the place. -/
theorem AtPlace.current {c : Conn} (h : AtPlace u c) :
    ∃ place rc, c.current = some (c.session, place, rc) ∧ Stage u c.session c.unread place ∧
      (c.call = none → rc = 0) ∧ (∀ q r, c.call = some (q, r) → r = rc) := by
  obtain ⟨place, hstage, hcall, -⟩ := h
  rw [Conn.current]
  cases hrunning : c.call with
  | none =>
    rw [hstage.enter]
    exact ⟨place, 0, rfl, hstage, fun _ => rfl, nofun⟩
  | some running =>
    obtain ⟨q, rc⟩ := running
    obtain rfl := hcall q rc hrunning
    refine ⟨q, rc, rfl, hstage, nofun, fun _ _ heq => ?_⟩
    cases heq
    rfl

theorem Stage.place_eq_body (h : Stage u s unread place) : place = .body ↔ s.bodyType = 1 := by
  cases h <;> simp [Session.init]

/-- One read: if it fits the session is at the next place, and only then is the file what it should be. -/
theorem AtPlace.step {c c' : Conn} {answer : Answer} (h : AtPlace u c)
    (hstep : FileReceive.step c answer = some c') :
    (Fits c answer → AtPlace u c') ∧ (Received u c' → Fits c answer) := by
  obtain ⟨place, rc, hcurrent, hstage, hnone, hsome⟩ := h.current
  have hreturned := h.received.returned
  simp only [FileReceive.step, if_neg hreturned, hcurrent] at hstep
  cases answer with
  | again =>
    cases hstep
    constructor
    · intro hfits
      refine ⟨place, hstage, nofun, ?_⟩
      -- a call that has read of the head has its last count in `rc`
      have hnot : ¬(place = .body ∧ rc = 0) := by
        rintro ⟨hbody, hzero⟩
        obtain ⟨q, r, hcall, hne⟩ := hfits (hstage.place_eq_body.mp hbody)
        exact hne ((hsome q r hcall).trans hzero)
      rw [if_neg hnot, List.mem_append, not_or]
      exact ⟨hreturned, by decide⟩
    · intro hreceived hbody
      have hnot : ¬(place = .body ∧ rc = 0) := fun hboth => by
        have hret := hreceived.returned
        simp only [if_pos hboth, List.mem_append, List.mem_singleton, or_true, not_true_eq_false] at hret
      have hrc : rc ≠ 0 := fun hzero => hnot ⟨hstage.place_eq_body.mpr hbody, hzero⟩
      cases hcall : c.call with
      | none => exact absurd (hnone hcall) hrc
      | some running => exact ⟨running.1, running.2, rfl, hsome _ _ hcall ▸ hrc⟩
  | bytes n =>
    by_cases hvalid : 0 < n ∧ n ≤ c.session.wanted place ∧ n ≤ c.unread.length
    · simp only [if_pos hvalid] at hstep
      obtain ⟨hpos, hwanted, hunread⟩ := hvalid
      by_cases hfits : c.session.bodyType = 1 → n ≤ c.session.fileSize - c.session.pos
      · obtain ⟨s', next, place', hgot, hstage', hnext⟩ := hstage.got hpos hwanted hfits
        rw [hgot] at hstep
        cases hstep
        refine ⟨fun _ => ⟨place', hstage', ?_, ?_⟩, fun _ => hfits⟩
        · intro q r hcall
          rcases hnext with rfl | rfl
          · cases hcall
          · cases hcall
            rfl
        · show -1 ∉ if next = none then _ else _
          split
          · rw [List.mem_append, not_or]
            exact ⟨hreturned, by decide⟩
          · exact hreturned
      · refine ⟨fun hok => absurd hok hfits, fun hreceived => ?_⟩
        -- too many bytes are written, and `pos` is behind the end
        obtain ⟨hbody, hover⟩ := Classical.not_imp.mp hfits
        obtain ⟨s', hgot, hlt⟩ := hstage.got_over hbody hover hunread
        rw [hgot] at hstep
        cases hstep
        exact absurd hreceived.pos_le (Nat.not_le.mpr hlt)
    · simp only [if_neg hvalid] at hstep
      cases hstep

/-- No read goes wrong: whatever the socket may answer, the call goes on or returns. -/
theorem AtPlace.isSome_step {c : Conn} (h : AtPlace u c) :
    (FileReceive.step c .again).isSome ∧
      ∀ s place rc n, c.current = some (s, place, rc) → 0 < n ∧ n ≤ s.wanted place ∧ n ≤ c.unread.length →
        (FileReceive.step c (.bytes n)).isSome := by
  obtain ⟨place, rc, hcurrent, hstage, -, -⟩ := h.current
  have hreturned := h.received.returned
  simp only [FileReceive.step, if_neg hreturned, hcurrent]
  refine ⟨rfl, fun s place' rc' n hsome hvalid => ?_⟩
  cases hsome
  rw [if_pos hvalid, Option.isSome_map]
  by_cases hfits : c.session.bodyType = 1 → n ≤ c.session.fileSize - c.session.pos
  · obtain ⟨s', next, place', hgot, -, -⟩ := hstage.got hvalid.1 hvalid.2.1 hfits
    rw [hgot, Option.isSome_some]
  · obtain ⟨hbody, hover⟩ := Classical.not_imp.mp hfits
    obtain ⟨s', hgot, -⟩ := hstage.got_over hbody hover hvalid.2.2
    rw [hgot, Option.isSome_some]

/-- A file of five bytes, with another byte behind it. -/
def fiveBytes : Upload where
  headByte := 1
  hi := 0
  lo := 35
  msg := 1 :: (List.replicate 30 0 ++ [5, 0, 0, 0])
  file := [1, 2, 3, 4, 5]
  further := [9]
  headByte_ne := by decide
  length_msg := rfl
  length_ge := Nat.le_of_eq rfl
  kind := rfl
  announced := rfl

/-- The head, with an interruption in the length. -/
def headAnswers : List Answer := [.bytes 1, .bytes 1, .again, .bytes 1, .bytes 35]

end ProgrammingPath.FileReceive
