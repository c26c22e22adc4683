import ProgrammingPath.Lib.Run
import ProgrammingPath.Rtmp.Delivery

/-!
# The configuration before the slices

A decoder needs the meta data and the sequence header, with the parameter sets in force, before the
first slice. `_RTMP_H264SendPacket` sends them once, before the first IDR slice that comes after both
parameter sets; slices are sent whether this has happened or not, and a parameter set that comes later
is only kept. So the configuration is right in every run in which the slices come when it was sent, and
with the parameter sets that it was sent with.
-/

namespace ProgrammingPath.Rtmp

open ProgrammingPath.Lib

/-! ## Runs -/

/-- A call of `RTMPStreamOut_Send`. -/
structure Call where
  buffer : AnnexB
  behind : List UInt8
  ms : Int

def sendStep (decode : DecodeSps) (out : StreamOut) (call : Call) : Option StreamOut :=
  rtmpStreamOutSend decode out (call.buffer.bytes ++ call.behind) call.buffer.bytes.length call.ms

/-- What happens on a connection: a unit comes in, or a packet is sent. -/
inductive Event
  | received (n : Nal)
  | sent (p : Packet)
  deriving DecidableEq

/-- The stream, with what has happened since the connection was opened. -/
structure Conn where
  out : StreamOut
  history : List Event

def Conn.opened (width height fps : Int) : Conn := ⟨.opened width height fps, []⟩

/-- A unit of a call. -/
structure UnitAct where
  slot : Slot
  ms : Int

def Call.units (call : Call) : List UnitAct :=
  (AnnexB.slots call.buffer call.behind).map fun sl => ⟨sl, call.ms⟩

/-- A unit comes in, and what is sent for it is written down. -/
def unitStep (decode : DecodeSps) (c : Conn) (act : UnitAct) : Option Conn :=
  (h264Slot decode act.ms c.out act.slot).map fun out =>
    ⟨out, c.history ++ .received act.slot.nal :: (out.sent.drop c.out.sent.length).map .sent⟩

/-! ## What was received and sent -/

/-- The most recent parameter sets, those at the first IDR slice that came after both, and the most
recent configuration that was sent. -/
structure Seen where
  sps : Option Nal
  pps : Option Nal
  used : Option (Nal × Nal)
  metaData : Bool
  header : Option (List UInt8)

def Seen.init : Seen := ⟨none, none, none, false, none⟩

/-- An IDR slice comes. -/
def Seen.use (s : Seen) : Seen :=
  match s.used, s.sps, s.pps with
  | none, some sps, some pps => { s with used := some (sps, pps) }
  | _, _, _ => s

def Seen.receive (s : Seen) (n : Nal) : Seen :=
  match naluType n.head with
  | .sps => { s with sps := some n }
  | .pps => { s with pps := some n }
  | .idr => s.use
  | _ => s

def Seen.send (s : Seen) : Packet → Seen
  | .metaData .. => { s with metaData := true }
  | .avcHeader _ body => { s with header := some body }
  | _ => s

def Seen.next (s : Seen) : Event → Seen
  | .received n => s.receive n
  | .sent p => s.send p

def seen (history : List Event) : Seen := history.foldl Seen.next .init

/-- A sequence header with all the bytes of these parameter sets. -/
def Carries (body : List UInt8) (sps pps : Nal) : Prop :=
  ∃ profile spsText ppsText : List UInt8, profile.length = 3 ∧
    body = [0x17, 0, 0, 0, 0, 0x01] ++ (profile ++ (0xff :: 0xe1 :: (be16 spsText.length ++ (spsText ++
      0x01 :: (be16 ppsText.length ++ ppsText))))) ∧
    sps.bytes <+: spsText ∧ pps.bytes <+: ppsText

/-- Meta data and a sequence header were sent, and the most recent one has the most recent parameter
sets. -/
def Configured (s : Seen) : Prop :=
  s.metaData = true ∧ ∃ sps pps body, s.sps = some sps ∧ s.pps = some pps ∧ s.header = some body ∧
    Carries body sps pps

/-- It was so whenever a slice was sent. -/
def ConfiguredBefore (history : List Event) : Prop :=
  ∀ before payload key timestamp after,
    history = before ++ .sent (.nalu payload key timestamp) :: after → Configured (seen before)

/-- The parameter sets in force are those at the first IDR slice, and fit into the arrays of the stream
with one byte to spare. -/
def Ready (s : Seen) : Prop :=
  ∃ used ∈ s.used, s.sps = some used.1 ∧ s.pps = some used.2 ∧ used.1.bytes.length ≤ 99 ∧
    used.2.bytes.length ≤ 99

instance (s : Seen) : Decidable (Ready s) := inferInstanceAs (Decidable (∃ used ∈ s.used, _))

/-- Once a parameter set has come, a slice or an IDR slice comes only when the parameter sets are
ready. -/
def SliceReady (c : Conn) (act : UnitAct) : Prop :=
  h264Sends act.slot.nal = true → (seen c.history).sps ≠ none ∨ (seen c.history).pps ≠ none →
    Ready ((seen c.history).receive act.slot.nal)

instance (c : Conn) (act : UnitAct) : Decidable (SliceReady c act) :=
  inferInstanceAs (Decidable (_ → _))

/-! ## Parameter sets -/

theorem ParamSet.text_copy (set : ParamSet) (n : Nal) (rest : List UInt8) {nalLen : Nat}
    (hlen : n.bytes.length < nalLen) (hset : 100 ≤ set.bytes.length) :
    100 ≤ (set.copy (n.bytes ++ rest) nalLen).bytes.length ∧
      (set.copy (n.bytes ++ rest) nalLen).len ≠ 0 ∧ (set.copy (n.bytes ++ rest) nalLen).len ≤ 100 ∧
      (n.bytes.length ≤ 99 → n.bytes <+: (set.copy (n.bytes ++ rest) nalLen).text) := by
  have hpos := n.length_pos
  rw [ParamSet.text, ParamSet.copy]
  dsimp only
  generalize hl : (if 100 < nalLen then 99 else nalLen) = len
  have hle : len ≤ 100 ∧ len ≠ 0 ∧ (n.bytes.length ≤ 99 → n.bytes.length ≤ len) := by
    split at hl <;> omega
  refine ⟨?_, hle.2.1, hle.1, fun hn => ?_⟩
  · rw [List.length_append, List.length_drop]
    omega
  · have htake : (n.bytes ++ rest).take len = n.bytes ++ rest.take (len - n.bytes.length) := by
      rw [List.take_append, List.take_of_length_le (hle.2.2 hn)]
    rw [htake, List.append_assoc, List.take_append, List.take_of_length_le (hle.2.2 hn)]
    exact List.prefix_append _ _

/-- An array has the parameter set that came last. -/
structure Kept (set : ParamSet) (n : Option Nal) : Prop where
  length_bytes : 100 ≤ set.bytes.length
  len_le : set.len ≤ 100
  len_eq_zero : set.len = 0 ↔ n = none
  text : ∀ m, n = some m → m.bytes.length ≤ 99 → m.bytes <+: set.text

theorem kept_init : Kept .init none :=
  ⟨by decide, by decide, by decide, fun m h => by cases h⟩

theorem kept_copy {set : ParamSet} {n : Option Nal} (h : Kept set n) (sl : Slot) :
    Kept (set.copy sl.mem (sl.length + 1)) (some sl.nal) := by
  have hlen : sl.nal.bytes.length < sl.length + 1 := Nat.lt_succ_of_le (Nat.le_add_right _ _)
  obtain ⟨hbytes, hne, hle, htext⟩ := set.text_copy sl.nal (List.replicate sl.pad 0 ++ sl.rest) hlen
    h.length_bytes
  refine ⟨hbytes, hle, ⟨fun hzero => absurd hzero hne, fun hnone => by cases hnone⟩, ?_⟩
  rintro m ⟨⟩ hm
  exact htext hm

theorem Kept.length_text {set : ParamSet} {n : Option Nal} (h : Kept set n) :
    set.text.length = set.len := by
  rw [ParamSet.text, List.length_take]
  have := h.length_bytes
  have := h.len_le
  omega

/-- The header has what is in the arrays. -/
theorem carries_avcSequenceHeader {sps pps : ParamSet} {n m : Nal} (hsps : Kept sps (some n))
    (hpps : Kept pps (some m)) (hn : n.bytes.length ≤ 99) (hm : m.bytes.length ≤ 99) :
    Carries (avcSequenceHeader sps pps) n m := by
  refine ⟨[sps.bytes.getD 1 0, sps.bytes.getD 2 0, sps.bytes.getD 3 0], sps.text, pps.text, rfl, ?_,
    hsps.text n rfl hn, hpps.text m rfl hm⟩
  rw [hsps.length_text, hpps.length_text]
  rfl

/-! ## The invariant -/

/-- The state of the stream, as far as it follows from what was received and sent. -/
structure Agrees (out : StreamOut) (s : Seen) : Prop where
  isopen : out.isopen = true
  gate : out.frameSpsExists = true ↔ s.sps ≠ none ∨ s.pps ≠ none
  sps : Kept out.mdata.sps s.sps
  pps : Kept out.mdata.pps s.pps
  status : out.mdata.status = true ↔ s.used ≠ none
  header : ∀ sps pps, s.used = some (sps, pps) → s.metaData = true ∧ ∃ body, s.header = some body ∧
    (sps.bytes.length ≤ 99 → pps.bytes.length ≤ 99 → Carries body sps pps)

structure Inv (c : Conn) : Prop where
  agrees : Agrees c.out (seen c.history)
  before : ConfiguredBefore c.history

theorem seen_append (history events : List Event) :
    seen (history ++ events) = events.foldl Seen.next (seen history) := List.foldl_append

/-- An event more. -/
theorem configuredBefore_concat {history : List Event} (h : ConfiguredBefore history) {e : Event}
    (he : ∀ payload key timestamp, e = .sent (.nalu payload key timestamp) → Configured (seen history)) :
    ConfiguredBefore (history ++ [e]) := by
  intro before payload key timestamp after heq
  rcases List.eq_nil_or_concat after with rfl | ⟨after', last, rfl⟩
  · obtain ⟨rfl, hlast⟩ := List.append_inj' heq rfl
    exact he payload key timestamp (List.cons.inj hlast).1
  · rw [List.concat_eq_append, ← List.cons_append, ← List.append_assoc] at heq
    obtain ⟨hhistory, -⟩ := List.append_inj' heq rfl
    exact h before payload key timestamp after' hhistory

theorem Ready.configured {out : StreamOut} {s : Seen} (h : Agrees out s) (hready : Ready s) :
    Configured s := by
  obtain ⟨⟨sps, pps⟩, hused, hsps, hpps, hn, hm⟩ := hready
  obtain ⟨hmeta, body, hbody, hcarries⟩ := h.header sps pps hused
  exact ⟨hmeta, sps, pps, body, hsps, hpps, hbody, hcarries hn hm⟩

/-- What becomes of the stream, by the type of the unit. -/
theorem h264Slot_cases {decode : DecodeSps} {ms : Int} {out out' : StreamOut} {sl : Slot}
    (h : h264Slot decode ms out sl = some out') :
    (naluType sl.nal.head = .sps ∧ ∃ size, out' =
      { out with frameSpsExists := true }.keepSps sl.mem (sl.length + 1) size) ∨
    (naluType sl.nal.head = .pps ∧ out' =
      { out with frameSpsExists := true }.keepPps sl.mem (sl.length + 1)) ∨
    (naluType sl.nal.head = .idr ∧ out.frameSpsExists = true ∧
      out' = out.sendConfiguration.sendNalu sl.mem (sl.length + 1) true ms) ∨
    (naluType sl.nal.head = .slice ∧ out.frameSpsExists = true ∧
      out' = out.sendNalu sl.mem (sl.length + 1) false ms) ∨
    ((naluType sl.nal.head = .idr → out.frameSpsExists = false) ∧ naluType sl.nal.head ≠ .sps ∧
      naluType sl.nal.head ≠ .pps ∧ out' = out) := by
  rw [h264Slot] at h
  cases htype : naluType sl.nal.head with
  | sps =>
    simp only [htype, true_or, if_true, h264SendNal, headD_mem, Option.map_eq_some_iff] at h
    obtain ⟨size, -, rfl⟩ := h
    exact .inl ⟨rfl, size, rfl⟩
  | pps =>
    simp only [htype, or_true, if_true, h264SendNal, headD_mem, Option.some.injEq] at h
    exact .inr (.inl ⟨rfl, h.symm⟩)
  | idr =>
    simp only [htype, reduceCtorEq, or_self, if_false, h264SendNal, headD_mem] at h
    split at h
    · next hgate => exact .inr (.inr (.inl ⟨rfl, hgate, (Option.some.inj h).symm⟩))
    · next hgate =>
      rw [Bool.not_eq_true] at hgate
      exact .inr (.inr (.inr (.inr ⟨fun _ => hgate, by decide, by decide, (Option.some.inj h).symm⟩)))
  | slice =>
    simp only [htype, reduceCtorEq, or_self, if_false, h264SendNal, headD_mem] at h
    split at h
    · next hgate => exact .inr (.inr (.inr (.inl ⟨rfl, hgate, (Option.some.inj h).symm⟩)))
    · exact .inr (.inr (.inr (.inr ⟨by simp, by decide, by decide, (Option.some.inj h).symm⟩)))
  | dpa | dpb | dpc | sei | aud | other =>
    simp only [htype, reduceCtorEq, or_self, if_false, h264SendNal, headD_mem, ite_self,
      Option.some.injEq] at h
    exact .inr (.inr (.inr (.inr ⟨by simp, by decide, by decide, h.symm⟩)))

/-- Events that are not slices. -/
def NotNalu (e : Event) : Prop := ∀ payload key timestamp, e ≠ .sent (.nalu payload key timestamp)

theorem configuredBefore_append {history : List Event} (h : ConfiguredBefore history)
    {events : List Event} (he : ∀ e ∈ events, NotNalu e) : ConfiguredBefore (history ++ events) := by
  induction events generalizing history with
  | nil => rwa [List.append_nil]
  | cons e events ih =>
    have hfirst : ConfiguredBefore (history ++ [e]) := by
      apply configuredBefore_concat h
      intro payload key timestamp heq
      exact absurd heq (he e List.mem_cons_self payload key timestamp)
    have hrest := ih hfirst fun e' he' => he e' (List.mem_cons_of_mem _ he')
    rwa [List.append_assoc, List.singleton_append] at hrest

theorem agrees_sps {out : StreamOut} {s : Seen} (h : Agrees out s) {sl : Slot}
    (htype : naluType sl.nal.head = .sps) (size : Int × Int) :
    Agrees ({ out with frameSpsExists := true }.keepSps sl.mem (sl.length + 1) size)
      (s.receive sl.nal) := by
  have hreceive : s.receive sl.nal = { s with sps := some sl.nal } := by rw [Seen.receive, htype]
  rw [hreceive, StreamOut.keepSps]
  dsimp only
  split
  · exact ⟨h.isopen, by simp, kept_copy h.sps sl, h.pps, h.status, h.header⟩
  · exact ⟨h.isopen, by simp, kept_copy h.sps sl, h.pps, h.status, h.header⟩

theorem agrees_pps {out : StreamOut} {s : Seen} (h : Agrees out s) {sl : Slot}
    (htype : naluType sl.nal.head = .pps) :
    Agrees ({ out with frameSpsExists := true }.keepPps sl.mem (sl.length + 1)) (s.receive sl.nal) := by
  have hreceive : s.receive sl.nal = { s with pps := some sl.nal } := by rw [Seen.receive, htype]
  rw [hreceive]
  exact ⟨h.isopen, by simp [StreamOut.keepPps], h.sps, kept_copy h.pps sl, h.status, h.header⟩

theorem agrees_sendNalu {out : StreamOut} {s : Seen} (h : Agrees out s) (ptr : List UInt8) (size : Nat)
    (key : Bool) (ms : Int) : Agrees (out.sendNalu ptr size key ms) s :=
  ⟨h.isopen, h.gate, h.sps, h.pps, h.status, h.header⟩

/-- The configuration is sent when an IDR slice comes after both parameter sets for the first time. -/
theorem agrees_sendConfiguration {out : StreamOut} {s : Seen} (h : Agrees out s) :
    ∃ ps, out.sendConfiguration.sent = out.sent ++ ps ∧ (∀ p ∈ ps, NotNalu (.sent p)) ∧
      Agrees out.sendConfiguration (ps.foldl Seen.send s.use) ∧
      (Ready s.use → Ready (ps.foldl Seen.send s.use)) := by
  rw [StreamOut.sendConfiguration]
  split
  · next hfirst =>
    obtain ⟨hstatus, hspsLen, hppsLen⟩ := hfirst
    obtain ⟨sps, hsps⟩ := Option.ne_none_iff_exists'.mp (mt h.sps.len_eq_zero.mpr hspsLen)
    obtain ⟨pps, hpps⟩ := Option.ne_none_iff_exists'.mp (mt h.pps.len_eq_zero.mpr hppsLen)
    have hused : s.used = none := by
      by_contra hne
      rw [h.status.mpr hne] at hstatus
      cases hstatus
    have huse : s.use = { s with used := some (sps, pps) } := by rw [Seen.use, hused, hsps, hpps]
    refine ⟨_, rfl, by simp [NotNalu], ?_, ?_⟩
    · rw [huse]
      refine ⟨h.isopen, h.gate, h.sps, h.pps, by simp [Seen.send], ?_⟩
      rintro _ _ ⟨⟩
      exact ⟨rfl, _, rfl, carries_avcSequenceHeader (hsps ▸ h.sps) (hpps ▸ h.pps)⟩
    · rw [huse]
      exact id
  · next hnot =>
    have huse : s.use = s := by
      rw [Seen.use]
      split
      · next hused hsps hpps =>
        exfalso
        apply hnot
        refine ⟨?_, fun hzero => ?_, fun hzero => ?_⟩
        · rw [← Bool.not_eq_true, h.status, hused]
          exact not_not_intro rfl
        · rw [h.sps.len_eq_zero.mp hzero] at hsps
          cases hsps
        · rw [h.pps.len_eq_zero.mp hzero] at hpps
          cases hpps
      · rfl
    refine ⟨[], (List.append_nil _).symm, ?_, ?_, id⟩
    · intro p hp
      cases hp
    · rwa [huse]

theorem seen_received (history : List Event) (n : Nal) (ps : List Packet) :
    seen (history ++ .received n :: ps.map .sent) = ps.foldl Seen.send ((seen history).receive n) := by
  rw [seen_append, List.foldl_cons, List.foldl_map]
  rfl

/-- A unit comes in, and packets `ps` are sent that are no slices. -/
theorem inv_received {c : Conn} (h : Inv c) {n : Nal} {out : StreamOut} (ps : List Packet)
    (hps : ∀ p ∈ ps, NotNalu (.sent p))
    (hagrees : Agrees out (ps.foldl Seen.send ((seen c.history).receive n))) :
    Inv ⟨out, c.history ++ .received n :: ps.map .sent⟩ := by
  refine ⟨?_, ?_⟩
  · rw [seen_received]
    exact hagrees
  · apply configuredBefore_append h.before
    intro e he
    rcases List.mem_cons.mp he with rfl | he
    · intro _ _ _ heq
      cases heq
    · obtain ⟨p, hp, rfl⟩ := List.mem_map.mp he
      exact hps p hp

theorem inv_sendNalu {c : Conn} (h : Inv c) (hready : Ready (seen c.history)) (ptr : List UInt8)
    (size : Nat) (key : Bool) (ms : Int) :
    Inv ⟨c.out.sendNalu ptr size key ms,
      c.history ++ [.sent (.nalu ⟨ptr, size⟩ key c.out.mdata.nTimeStamp)]⟩ := by
  refine ⟨?_, ?_⟩
  · rw [seen_append]
    exact agrees_sendNalu h.agrees ptr size key ms
  · exact configuredBefore_concat h.before fun _ _ _ _ => Ready.configured h.agrees hready

theorem receive_other {s : Seen} {n : Nal} (hsps : naluType n.head ≠ .sps)
    (hpps : naluType n.head ≠ .pps) (hidr : naluType n.head = .idr → s.sps = none) :
    s.receive n = s := by
  rw [Seen.receive]
  split
  · next htype => exact absurd htype hsps
  · next htype => exact absurd htype hpps
  · next htype =>
    rw [Seen.use]
    split
    · next hused hsome hpps =>
      rw [hidr htype] at hsome
      cases hsome
    · rfl
  · rfl

/-- One unit keeps the invariant, if a slice comes when the parameter sets are ready. -/
theorem inv_step {decode : DecodeSps} {c c' : Conn} {act : UnitAct} (h : Inv c)
    (hready : SliceReady c act) (hstep : unitStep decode c act = some c') : Inv c' := by
  obtain ⟨out', hslot, rfl⟩ := Option.map_eq_some_iff.mp hstep
  have hsends : c.out.frameSpsExists = true → h264Sends act.slot.nal = true →
      Ready ((seen c.history).receive act.slot.nal) :=
    fun hopen hsends => hready hsends (h.agrees.gate.mp hopen)
  -- nothing is sent
  have hsame : ∀ {out : StreamOut}, out.sent = c.out.sent →
      Agrees out ((seen c.history).receive act.slot.nal) →
      Inv ⟨out, c.history ++ .received act.slot.nal ::
        (out.sent.drop c.out.sent.length).map .sent⟩ := by
    intro out hsent hagrees
    have hinv := inv_received h [] (fun p hp => by cases hp) hagrees
    rw [hsent, List.drop_length]
    exact hinv
  rcases h264Slot_cases hslot with ⟨htype, size, rfl⟩ | ⟨htype, rfl⟩ | ⟨htype, hopen, rfl⟩ |
    ⟨htype, hopen, rfl⟩ | ⟨hclosed, hsps, hpps, rfl⟩
  · exact hsame (keepSps_sent _ _ _ _).1 (agrees_sps h.agrees htype size)
  · exact hsame rfl (agrees_pps h.agrees htype)
  · -- an IDR slice, after the configuration if it is the first one
    obtain ⟨ps, hsent, hps, hagrees, hkeeps⟩ := agrees_sendConfiguration h.agrees
    have huse : (seen c.history).receive act.slot.nal = (seen c.history).use := by
      rw [Seen.receive, htype]
    rw [← huse] at hagrees hkeeps
    have hnow := hkeeps (hsends hopen (by simp [h264Sends, htype]))
    rw [← seen_received] at hnow
    have hinv := inv_sendNalu (inv_received h ps hps hagrees) hnow act.slot.mem (act.slot.length + 1)
      true act.ms
    rw [StreamOut.sendNalu, hsent, List.append_assoc, List.drop_left, List.map_append]
    rw [StreamOut.sendNalu, hsent, List.append_assoc, List.append_assoc] at hinv
    exact hinv
  · have hreceive : (seen c.history).receive act.slot.nal = seen c.history := by
      rw [Seen.receive, htype]
    have hnow := hsends hopen (by simp [h264Sends, htype])
    have hagrees := h.agrees
    rw [← hreceive] at hagrees
    rw [← List.foldl_nil (f := Seen.send) (b := (seen c.history).receive act.slot.nal),
      ← seen_received] at hnow
    have hinv := inv_sendNalu (inv_received h [] (fun p hp => by cases hp) hagrees) hnow act.slot.mem
      (act.slot.length + 1) false act.ms
    rw [StreamOut.sendNalu, List.drop_left]
    rw [List.append_assoc] at hinv
    exact hinv
  · have hreceive : (seen c.history).receive act.slot.nal = seen c.history := by
      apply receive_other hsps hpps
      intro hidr
      by_contra hne
      have hopen := h.agrees.gate.mpr (.inl hne)
      rw [hclosed hidr] at hopen
      cases hopen
    apply hsame rfl
    rw [hreceive]
    exact h.agrees

theorem inv_opened (width height fps : Int) : Inv (Conn.opened width height fps) := by
  refine ⟨⟨rfl, by simp [Conn.opened, StreamOut.opened, seen, Seen.init], kept_init, kept_init,
    by simp [Conn.opened, StreamOut.opened, seen, Seen.init], ?_⟩, ?_⟩
  · intro sps pps hused
    cases hused
  · intro before payload key timestamp after heq
    exact absurd heq (by simp [Conn.opened])

/-! ## Whole runs -/

theorem isopen_h264Slot {decode : DecodeSps} {ms : Int} {out out' : StreamOut} {sl : Slot}
    (h : h264Slot decode ms out sl = some out') : out'.isopen = out.isopen := by
  rcases h264Slot_cases h with ⟨-, size, rfl⟩ | ⟨-, rfl⟩ | ⟨-, -, rfl⟩ | ⟨-, -, rfl⟩ | ⟨-, -, -, rfl⟩
  · rw [StreamOut.keepSps]
    dsimp only
    split <;> rfl
  · rfl
  · rw [StreamOut.sendNalu, StreamOut.sendConfiguration]
    split <;> rfl
  · rfl
  · rfl

/-- The units of a call, one by one. -/
theorem run_slots {decode : DecodeSps} {ms : Int} {sls : List Slot} {c : Conn} {out : StreamOut}
    (h : sls.foldlM (h264Slot decode ms) c.out = some out) :
    ∃ c', run (unitStep decode) c (sls.map fun sl => ⟨sl, ms⟩) = some c' ∧ c'.out = out ∧
      out.isopen = c.out.isopen := by
  induction sls generalizing c with
  | nil =>
    cases h
    exact ⟨c, rfl, rfl, rfl⟩
  | cons sl sls ih =>
    rw [List.foldlM_cons] at h
    obtain ⟨out', hslot, hrest⟩ := Option.bind_eq_some_iff.mp h
    have hunit : unitStep decode c ⟨sl, ms⟩ = some ⟨out', c.history ++
        .received sl.nal :: (out'.sent.drop c.out.sent.length).map .sent⟩ := by
      rw [unitStep, hslot]
      rfl
    obtain ⟨c', hrun, hout, hopen⟩ := ih (c := ⟨out', _⟩) hrest
    refine ⟨c', run_cons_eq_some.mpr ⟨_, hunit, hrun⟩, hout, ?_⟩
    rw [hopen]
    exact isopen_h264Slot hslot

/-- The calls take the units one by one. -/
theorem run_units {decode : DecodeSps} {calls : List Call} {c : Conn} (hopen : c.out.isopen = true)
    {out : StreamOut} (hrun : run (sendStep decode) c.out calls = some out) :
    ∃ c', run (unitStep decode) c (calls.flatMap Call.units) = some c' ∧ c'.out = out := by
  induction calls generalizing c with
  | nil =>
    cases hrun
    exact ⟨c, rfl, rfl⟩
  | cons call calls ih =>
    obtain ⟨out', hcall, hrest⟩ := run_cons_eq_some.mp hrun
    rw [sendStep, rtmpStreamOutSend_eq decode hopen] at hcall
    obtain ⟨c', hslots, rfl, hopen'⟩ := run_slots hcall
    obtain ⟨c'', hunits, hout⟩ := ih (hopen'.trans hopen) hrest
    exact ⟨c'', run_append_eq_some.mpr ⟨c', hslots, hunits⟩, hout⟩

/-- In every run in which slices come only when the parameter sets are ready, meta data and a sequence
header with the most recent parameter sets were sent before every slice. -/
theorem configured_of_ready (decode : DecodeSps) (width height fps : Int) (calls : List Call)
    {out : StreamOut}
    (hok : Meets (unitStep decode) SliceReady (Conn.opened width height fps)
      (calls.flatMap Call.units))
    (hrun : run (sendStep decode) (StreamOut.opened width height fps) calls = some out) :
    ∃ c, run (unitStep decode) (Conn.opened width height fps) (calls.flatMap Call.units) = some c ∧
      c.out = out ∧ ConfiguredBefore c.history := by
  obtain ⟨c, hunits, hout⟩ := run_units (c := Conn.opened width height fps) rfl hrun
  have hinv : Inv c := run_invariant (fun _ _ _ => inv_step) (inv_opened width height fps) hok hunits
  exact ⟨c, hunits, hout, hinv.before⟩

/-- Units with the types of parameter sets, of an IDR slice and of a slice. -/
def sampleNal (head : UInt8) (h : head ≠ 0) : Nal where
  bytes := [head]
  ne_nil := List.cons_ne_nil head []
  no_code := by
    intro hin
    have hle : 3 ≤ 1 := hin.length_le
    omega
  last_ne := by
    rintro b ⟨⟩
    exact h

def spsUnit : NalUnit := ⟨1, sampleNal 0x67 (by decide)⟩

def ppsUnit : NalUnit := ⟨1, sampleNal 0x68 (by decide)⟩

def idrUnit : NalUnit := ⟨0, sampleNal 0x65 (by decide)⟩

def sliceUnit : NalUnit := ⟨0, sampleNal 0x41 (by decide)⟩

/-- Both parameter sets and an IDR slice, and then a slice. -/
def readyCalls : List Call := [⟨⟨[spsUnit, ppsUnit, idrUnit], 0⟩, [], 40⟩, ⟨⟨[sliceUnit], 0⟩, [], 40⟩]

theorem configured_of_ready_plain :
    ∃ c, run (unitStep fun _ => some (0, 0)) (Conn.opened 640 480 25) (readyCalls.flatMap Call.units) =
        some c ∧ c.out.sent.length = 4 ∧ ConfiguredBefore c.history := by
  have hrun : (run (sendStep fun _ => some (0, 0)) (StreamOut.opened 640 480 25) readyCalls).any
      (fun out => decide (out.sent.length = 4)) = true := by decide +kernel
  obtain ⟨out, hout, hsent⟩ := (Option.any_eq_true _ _).mp hrun
  obtain ⟨c, hunits, rfl, hbefore⟩ := configured_of_ready (fun _ => some (0, 0)) 640 480 25 readyCalls
    (by decide +kernel) hout
  exact ⟨c, hunits, of_decide_eq_true hsent, hbefore⟩

/-- A sequence parameter set opens the gate, and the slice behind it is sent with nothing before it. -/
def slicesOnly : List Call := [⟨⟨[spsUnit, sliceUnit], 0⟩, [], 40⟩]

theorem slice_sent_unconfigured :
    (run (sendStep fun _ => some (0, 0)) (StreamOut.opened 640 480 25) slicesOnly).map
      (fun out => out.sent) = some [.nalu ⟨[0x41], 2⟩ false 0] ∧
    ∃ c, run (unitStep fun _ => some (0, 0)) (Conn.opened 640 480 25)
        (slicesOnly.flatMap Call.units) = some c ∧ ¬ConfiguredBefore c.history := by
  refine ⟨by decide +kernel, ?_⟩
  have hrun : (run (unitStep fun _ => some (0, 0)) (Conn.opened 640 480 25)
      (slicesOnly.flatMap Call.units)).any (fun c => decide (c.history =
        [.received spsUnit.nal, .received sliceUnit.nal, .sent (.nalu ⟨[0x41], 2⟩ false 0)])) =
          true := by decide +kernel
  obtain ⟨c, hc, hhistory⟩ := (Option.any_eq_true _ _).mp hrun
  refine ⟨c, hc, fun hbefore => ?_⟩
  have hconfigured := hbefore [.received spsUnit.nal, .received sliceUnit.nal] ⟨[0x41], 2⟩ false 0 []
    (of_decide_eq_true hhistory)
  exact absurd hconfigured.1 (by decide +kernel)

end ProgrammingPath.Rtmp
