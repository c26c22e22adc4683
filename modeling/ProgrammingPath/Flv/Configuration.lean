import ProgrammingPath.Flv.Container

/-!
# The sequence header before the units

A decoder needs a sequence header with the parameter sets in force before the first unit, and a new one
after `flv_out_clear` and after a change of the resolution. `flv_out_video_h264` writes one before an IDR
slice while `status` is not set. But slices are written as soon as there was any IDR slice, `status` is
cleared only when width and height change both, and not when a parameter set changes otherwise. So the
header is right in every run in which units come only when the parameter sets are those at the last IDR
slice that had to have a header.
-/

namespace ProgrammingPath.Flv

open ProgrammingPath.Lib ProgrammingPath.Rtmp

/-! ## Runs -/

/-- A call of `flv_out_video_h264` or `flv_out_clear`. -/
inductive H264Call
  | video (v : Video)
  | clear

def H264Call.call : H264Call → Call
  | .video v => .h264 v
  | .clear => .clear

/-- What it does, unit by unit. -/
inductive H264Act
  | unit (v : Video) (n : NalRef)
  | clear

def H264Act.act : H264Act → Act
  | .unit v n => .h264 v n
  | .clear => .clear

def H264Call.acts : H264Call → List H264Act
  | .video v => v.nals.map (.unit v)
  | .clear => [.clear]

/-- What happens on a handle: a unit comes in, for a sequence parameter set with its resolution, the
handle is cleared, or a tag is written. -/
inductive Event
  | received (n : NalRef) (size : Option (Int × Int))
  | cleared
  | wrote (w : Write)
  deriving DecidableEq

def H264Act.event : H264Act → Event
  | .unit v n => .received n (if naluType n.head = .sps then v.decode n.bytes else none)
  | .clear => .cleared

/-- The writer, with what has happened since the start. -/
structure Conn where
  flv : FlvOut
  history : List Event

def Conn.started : Conn := ⟨flvOutStart .built, []⟩

/-- The unit comes in, and what is written for it is written down. -/
def connStep (c : Conn) (act : H264Act) : Option Conn :=
  (unitStep c.flv act.act).map fun flv =>
    ⟨flv, c.history ++ act.event :: (flv.writes.drop c.flv.writes.length).map .wrote⟩

/-! ## What was received and written -/

/-- The body of a tag. -/
def Write.body : Write → List UInt8
  | head data => data
  | tag _ _ tagData => tagData

/-- The packet type of a video tag with H.264: 0 for a sequence header, 1 for a unit. -/
def avcPacketType : Write → Option UInt8
  | .tag _ (tagType :: _) (frame :: packetType :: _) =>
    if tagType = 9 ∧ frame &&& 0x0F = 7 then some packetType else none
  | _ => none

/-- The most recent parameter sets and resolution, and, since the last clearing and the last change of the
resolution, the parameter sets at the first IDR slice and the most recent sequence header. -/
structure Seen where
  sps : Option (List UInt8)
  pps : Option (List UInt8)
  size : Option (Int × Int)
  used : Option (List UInt8 × List UInt8)
  header : Option (List UInt8)

def Seen.init : Seen := ⟨none, none, none, none, none⟩

/-- What was used and written counts no longer. -/
def Seen.clear (s : Seen) : Seen := { s with used := none, header := none }

/-- A sequence parameter set comes. -/
def Seen.keepSps (s : Seen) (sps : List UInt8) (size : Option (Int × Int)) : Seen :=
  let s := if s.size ≠ none ∧ s.size ≠ size then s.clear else s
  { s with sps := some sps, size := size }

/-- An IDR slice comes. -/
def Seen.use (s : Seen) : Seen :=
  match s.used, s.sps, s.pps with
  | none, some sps, some pps => { s with used := some (sps, pps) }
  | _, _, _ => s

def Seen.receive (s : Seen) (n : NalRef) (size : Option (Int × Int)) : Seen :=
  match naluType n.head with
  | .sps => s.keepSps n.bytes size
  | .pps => { s with pps := some n.bytes }
  | .idr => s.use
  | _ => s

def Seen.next (s : Seen) : Event → Seen
  | .received n size => s.receive n size
  | .cleared => s.clear
  | .wrote w => if avcPacketType w = some 0 then { s with header := some w.body } else s

def seen (history : List Event) : Seen := history.foldl Seen.next .init

/-- A sequence header with these parameter sets, byte for byte. -/
def Carries (body sps pps : List UInt8) : Prop :=
  sps.length < 256 ^ 2 ∧ pps.length < 256 ^ 2 ∧ ∃ profile : List UInt8, profile.length = 3 ∧
    body = [0x17, 0, 0, 0, 0, 0x01] ++ (profile ++ (0xff :: 0xe1 :: (bigEndian 2 sps.length ++ (sps ++
      0x01 :: (bigEndian 2 pps.length ++ pps)))))

/-- The header that counts has the most recent parameter sets. -/
def Configured (s : Seen) : Prop :=
  ∃ sps pps body, s.sps = some sps ∧ s.pps = some pps ∧ s.header = some body ∧ Carries body sps pps

/-- A unit may be written when the decoder is configured, a sequence header when both parameter sets
have come. -/
def Allowed (s : Seen) : Event → Prop
  | .wrote w =>
    (avcPacketType w = some 1 → Configured s) ∧
      (avcPacketType w = some 0 → s.sps ≠ none ∧ s.pps ≠ none)
  | _ => True

/-- Every event was allowed by what had happened before it. -/
def AllAllowed (history : List Event) : Prop :=
  ∀ before e after, history = before ++ e :: after → Allowed (seen before) e

/-! ## The condition -/

/-- The parameter sets are those at the first IDR slice since the last clearing and the last change of the
resolution. -/
def Current (s : Seen) : Prop := ∃ used ∈ s.used, s.sps = some used.1 ∧ s.pps = some used.2

/-- Both parameter sets have come, and the sequence header with them fits into its array. -/
def SetsFit (s : Seen) : Prop := ∃ sps ∈ s.sps, ∃ pps ∈ s.pps, 16 + sps.length + pps.length ≤ 1024

instance (s : Seen) : Decidable (Current s) := inferInstanceAs (Decidable (∃ used ∈ s.used, _))

instance (s : Seen) : Decidable (SetsFit s) :=
  inferInstanceAs (Decidable (∃ sps ∈ s.sps, ∃ pps ∈ s.pps, _))

/-- An IDR slice that gets a header comes when both sets fit into it, and any other unit that is written
when the sets are current. The decoder stays inside its structure. -/
def UnitReady (c : Conn) : H264Act → Prop
  | .unit v n =>
    (naluType n.head = .sps → (v.decode n.bytes).isSome) ∧
    (naluType n.head = .idr → c.flv.mdata.status = false → SetsFit (seen c.history)) ∧
    (naluType n.head = .idr → c.flv.mdata.status = true → Current (seen c.history)) ∧
    (naluType n.head = .slice → c.flv.frameKeyExists = true → Current (seen c.history))
  | .clear => True

instance (c : Conn) : ∀ act, Decidable (UnitReady c act)
  | .unit _ _ => inferInstanceAs (Decidable (_ ∧ _ ∧ _ ∧ _))
  | .clear => .isTrue trivial

/-! ## Histories -/

theorem seen_append (h h' : List Event) : seen (h ++ h') = h'.foldl Seen.next (seen h) :=
  List.foldl_append

theorem allAllowed_nil : AllAllowed [] := by
  intro before e after heq
  exact absurd heq (by simp)

theorem allAllowed_concat {h : List Event} (hall : AllAllowed h) {e : Event} (he : Allowed (seen h) e) :
    AllAllowed (h ++ [e]) := by
  intro before e' after heq
  rcases List.eq_nil_or_concat after with rfl | ⟨after', last, rfl⟩
  · obtain ⟨rfl, hlast⟩ := List.append_inj' heq rfl
    cases hlast
    exact he
  · rw [List.concat_eq_append, ← List.cons_append, ← List.append_assoc] at heq
    obtain ⟨rfl, -⟩ := List.append_inj' heq rfl
    exact hall before e' after' rfl

/-! ## The writer and what was seen -/

/-- What the writer keeps is what has come; while `status` is not set, nothing counts as used, and the
parameter sets that were used are in the header. -/
structure Agrees (flv : FlvOut) (s : Seen) : Prop where
  sps : flv.mdata.sps = s.sps
  pps : flv.mdata.pps = s.pps
  size : ∀ size ∈ s.size, flv.mdata.width = size.1 ∧ flv.mdata.height = size.2
  unknown : s.size = none → flv.mdata.width = 0
  idle : flv.mdata.status = false → s.used = none
  header : ∀ used ∈ s.used, ∃ body ∈ s.header, Carries body used.1 used.2

theorem agrees_started : Agrees (flvOutStart .built) .init where
  sps := rfl
  pps := rfl
  size := by
    rintro size ⟨⟩
  unknown := fun _ => rfl
  idle := fun _ => rfl
  header := by
    rintro used ⟨⟩

theorem Agrees.clear {flv : FlvOut} {s : Seen} (h : Agrees flv s) : Agrees (flvOutClear flv) s.clear where
  sps := h.sps
  pps := h.pps
  size := h.size
  unknown := h.unknown
  idle := fun _ => rfl
  header := by
    rintro used ⟨⟩

theorem Agrees.keepPps {flv : FlvOut} {s : Seen} (h : Agrees flv s) (pps : List UInt8) :
    Agrees (flv.keepPps pps) { s with pps := some pps } where
  sps := h.sps
  pps := rfl
  size := h.size
  unknown := h.unknown
  idle := h.idle
  header := h.header

/-- `status` is not cleared at every change of the resolution, but only at one. -/
theorem Agrees.keepSps {flv : FlvOut} {s : Seen} (h : Agrees flv s) (sps : List UInt8) (size : Int × Int) :
    Agrees (flv.keepSps sps size) (s.keepSps sps (some size)) where
  sps := rfl
  pps := by
    rw [Seen.keepSps]
    split
    · exact h.pps
    · exact h.pps
  size := by
    rintro size' ⟨⟩
    exact ⟨rfl, rfl⟩
  unknown := by
    rintro ⟨⟩
  idle := by
    intro hstatus
    rw [Seen.keepSps]
    split
    · rfl
    · next hsame =>
      apply h.idle
      by_contra hset
      -- then `status` was cleared now, and the resolution has changed
      have hchanged : flv.mdata.width ≠ 0 ∧ flv.mdata.height ≠ 0 ∧ flv.mdata.width ≠ size.1 ∧
          flv.mdata.height ≠ size.2 := by
        by_contra hnot
        exact hset ((if_neg hnot).symm.trans hstatus)
      apply hsame
      constructor
      · exact fun hnone => hchanged.1 (h.unknown hnone)
      · exact fun hsize => hchanged.2.2.1 (h.size size hsize).1
  header := by
    rw [Seen.keepSps]
    split
    · rintro used ⟨⟩
    · exact h.header

theorem Current.configured {flv : FlvOut} {s : Seen} (h : Agrees flv s) (hcurrent : Current s) :
    Configured s := by
  obtain ⟨used, hused, hsps, hpps⟩ := hcurrent
  obtain ⟨body, hbody, hcarries⟩ := h.header used hused
  exact ⟨used.1, used.2, body, hsps, hpps, hbody, hcarries⟩

theorem use_none {s : Seen} {sps pps : List UInt8} (hused : s.used = none) (hsps : s.sps = some sps)
    (hpps : s.pps = some pps) : s.use = { s with used := some (sps, pps) } := by
  obtain ⟨_, _, size, _, header⟩ := s
  cases hused
  cases hsps
  cases hpps
  rfl

/-- An IDR slice changes nothing while the sets are current. -/
theorem Current.use {s : Seen} (h : Current s) : s.use = s := by
  obtain ⟨used, hused, -⟩ := h
  rw [Seen.use, Option.mem_def.mp hused]

/-! ## One unit -/

/-- A tag with meta data is no video tag. -/
theorem avcPacketType_script (previousTagSize header body : List UInt8) :
    avcPacketType (.tag previousTagSize (0x12 :: header) body) = none := by
  rw [avcPacketType.eq_def]
  split
  · next heq =>
    cases heq
    exact if_neg fun h => absurd h.1 (by decide)
  · rfl

/-- What is written before an IDR slice. -/
theorem sendConfiguration_cases {flv flv' : FlvOut} {heap : Mem}
    (h : flv.sendConfiguration heap = some flv') :
    (flv.mdata.status = true ∧ flv' = flv) ∨
    (flv.mdata.status = false ∧ flv'.mdata = { flv.mdata with status := true } ∧
      ∃ sps, flv.mdata.sps = some sps ∧ ∃ w₀ w₁, flv'.writes = flv.writes ++ [w₀, w₁] ∧
        avcPacketType w₀ = none ∧ avcPacketType w₁ = some 0 ∧
        w₁.body = spsPpsBody heap sps (blockBytes flv.mdata.pps)) := by
  rw [FlvOut.sendConfiguration] at h
  split at h
  · next hstatus =>
    right
    rw [flvSendMetaData_eq, Option.bind_eq_bind, Option.bind_some] at h
    obtain ⟨flv₁, hheader, h⟩ := Option.bind_eq_some_iff.mp h
    obtain ⟨sps, hsps, hheader⟩ := Option.bind_eq_some_iff.mp hheader
    obtain ⟨body, hbody, rfl⟩ := Option.map_eq_some_iff.mp hheader
    cases h
    have hbody' : body = spsPpsBody heap sps (blockBytes flv.mdata.pps) := by
      rw [inArray] at hbody
      split at hbody
      · exact (Option.some.inj hbody).symm
      · cases hbody
    subst hbody'
    refine ⟨hstatus, rfl, sps, hsps, ?_⟩
    generalize metaDataBody flv.mdata.width flv.mdata.height .h264 = body
    exact ⟨_, _, List.append_assoc _ _ _, avcPacketType_script _ _ _, rfl, rfl⟩
  · next hstatus =>
    cases h
    exact .inl ⟨Bool.of_not_eq_false hstatus, rfl⟩

/-- What the writer does with a unit. -/
theorem h264Nal_cases {v : Video} {flv flv' : FlvOut} {n : NalRef} (h : h264Nal v flv n = some flv') :
    (naluType n.head = .sps ∧ ∃ size, v.decode n.bytes = some size ∧ flv' = flv.keepSps n.bytes size) ∨
    (naluType n.head = .pps ∧ flv' = flv.keepPps n.bytes) ∨
    (naluType n.head = .idr ∧ ∃ flv₁, flv.sendConfiguration v.heap = some flv₁ ∧ ∃ w,
      avcPacketType w = some 1 ∧ flv'.writes = flv₁.writes ++ [w] ∧
      flv'.mdata = (flv₁.addTime v.ms).mdata) ∨
    (naluType n.head = .slice ∧ flv.frameKeyExists = true ∧ ∃ w, avcPacketType w = some 1 ∧
      flv'.writes = flv.writes ++ [w] ∧ flv'.mdata = (flv.addTime v.ms).mdata) ∨
    (naluType n.head ≠ .sps ∧ naluType n.head ≠ .pps ∧ naluType n.head ≠ .idr ∧ flv' = flv) := by
  rw [h264Nal] at h
  split at h
  · next htype =>
    obtain ⟨size, hsize, rfl⟩ := Option.map_eq_some_iff.mp h
    exact .inl ⟨htype, size, hsize, rfl⟩
  · next htype =>
    cases h
    exact .inr (.inl ⟨htype, rfl⟩)
  · next htype =>
    obtain ⟨flv₁, hsend, rfl⟩ := Option.map_eq_some_iff.mp h
    exact .inr (.inr (.inl ⟨htype, flv₁, hsend, _, rfl, rfl, rfl⟩))
  · next htype =>
    split at h
    · next hkey =>
      cases h
      exact .inr (.inr (.inr (.inl ⟨htype, hkey, _, rfl, rfl, rfl⟩)))
    · cases h
      simp [htype]
  · next hsps hpps hidr hslice =>
    cases h
    exact .inr (.inr (.inr (.inr ⟨hsps, hpps, hidr, rfl⟩)))

/-- The invariant. -/
structure ConfigInv (c : Conn) : Prop where
  agrees : Agrees c.flv (seen c.history)
  allowed : AllAllowed c.history

theorem configInv_started : ConfigInv .started := ⟨agrees_started, allAllowed_nil⟩

theorem next_wrote {w : Write} (h : avcPacketType w ≠ some 0) (s : Seen) : s.next (.wrote w) = s :=
  if_neg h

theorem next_header {w : Write} (h : avcPacketType w = some 0) (s : Seen) :
    s.next (.wrote w) = { s with header := some w.body } := if_pos h

theorem allowed_event (s : Seen) (act : H264Act) : Allowed s act.event := by
  cases act with
  | unit v n => trivial
  | clear => trivial

theorem Agrees.congr {flv flv' : FlvOut} {s : Seen} (h : Agrees flv s) {ms : Int}
    (hmdata : flv'.mdata = (flv.addTime ms).mdata) : Agrees flv' s := by
  obtain ⟨hsps, hpps, hsize, hunknown, hidle, hheader⟩ := h
  refine ⟨?_, ?_, ?_, ?_, ?_, hheader⟩
  all_goals rw [hmdata]
  · exact hsps
  · exact hpps
  · exact hsize
  · exact hunknown
  · exact hidle

/-- Something happens. -/
theorem ConfigInv.event {c : Conn} (h : ConfigInv c) (act : H264Act) {flv : FlvOut}
    (hagrees : Agrees flv ((seen c.history).next act.event)) :
    ConfigInv ⟨flv, c.history ++ [act.event]⟩ := by
  refine ⟨?_, allAllowed_concat h.allowed (allowed_event _ act)⟩
  rw [seen_append]
  exact hagrees

/-- A unit is written when the decoder is configured. -/
theorem ConfigInv.unit {flv flv' : FlvOut} {history : List Event} (h : ConfigInv ⟨flv, history⟩)
    (hconfigured : Configured (seen history)) {w : Write} (hw : avcPacketType w = some 1) {ms : Int}
    (hmdata : flv'.mdata = (flv.addTime ms).mdata) : ConfigInv ⟨flv', history ++ [.wrote w]⟩ := by
  have hnot : avcPacketType w ≠ some 0 := by
    rw [hw]
    decide
  refine ⟨?_, allAllowed_concat h.allowed ⟨fun _ => hconfigured, fun hzero => absurd hzero hnot⟩⟩
  rw [seen_append]
  show Agrees flv' ((seen history).next (.wrote w))
  rw [next_wrote hnot]
  exact h.agrees.congr hmdata

/-- A unit comes in and is written, and changes nothing. -/
theorem ConfigInv.received {c : Conn} (h : ConfigInv c) {act : H264Act}
    (hnext : (seen c.history).next act.event = seen c.history) (hcurrent : Current (seen c.history))
    {w : Write} (hw : avcPacketType w = some 1) {flv : FlvOut} {ms : Int}
    (hmdata : flv.mdata = (c.flv.addTime ms).mdata) :
    ConfigInv ⟨flv, c.history ++ act.event :: [w].map .wrote⟩ := by
  have hagrees := h.agrees
  rw [← hnext] at hagrees
  have hseen : seen (c.history ++ [act.event]) = seen c.history := by
    rw [seen_append]
    exact hnext
  have hconfigured := Current.configured h.agrees hcurrent
  rw [← hseen] at hconfigured
  have hafter := (h.event act hagrees).unit hconfigured hw hmdata
  rw [List.append_assoc] at hafter
  exact hafter

theorem carries_spsPpsBody (heap : Mem) {sps pps : List UInt8} (h : 16 + sps.length + pps.length ≤ 1024) :
    Carries (spsPpsBody heap sps pps) sps pps := by
  refine ⟨by omega, by omega, [memOf sps heap 1, memOf sps heap 2, memOf sps heap 3], rfl, ?_⟩
  rfl

/-- Meta data and a sequence header are written for an IDR slice. -/
theorem ConfigInv.header {c : Conn} (h : ConfigInv c) {v : Video} {n : NalRef}
    (htype : naluType n.head = .idr) (hstatus : c.flv.mdata.status = false)
    (hfit : SetsFit (seen c.history)) {sps : List UInt8} (hsps : c.flv.mdata.sps = some sps) {heap : Mem}
    {w₀ w₁ : Write} (hw₀ : avcPacketType w₀ = none) (hw₁ : avcPacketType w₁ = some 0)
    (hbody : w₁.body = spsPpsBody heap sps (blockBytes c.flv.mdata.pps)) {flv : FlvOut}
    (hmdata : flv.mdata = { c.flv.mdata with status := true }) :
    ConfigInv ⟨flv, c.history ++ [(H264Act.unit v n).event, .wrote w₀, .wrote w₁]⟩ ∧
      Configured (seen (c.history ++ [(H264Act.unit v n).event, .wrote w₀, .wrote w₁])) := by
  obtain ⟨sps', hsps', pps, hpps, hlen⟩ := hfit
  have hsame : sps' = sps := by
    rw [← h.agrees.sps, hsps] at hsps'
    exact (Option.some.inj hsps').symm
  subst hsame
  have hblock : blockBytes c.flv.mdata.pps = pps := by
    rw [h.agrees.pps, Option.mem_def.mp hpps]
    rfl
  have huse : (seen c.history).next (H264Act.unit v n).event =
      { seen c.history with used := some (sps', pps) } := by
    show (seen c.history).receive n _ = _
    rw [Seen.receive, htype]
    exact use_none (h.agrees.idle hstatus) hsps' hpps
  have hnot : avcPacketType w₀ ≠ some 0 := by
    rw [hw₀]
    decide
  have hseen₀ : seen (c.history ++ [(H264Act.unit v n).event]) =
      { seen c.history with used := some (sps', pps) } := by
    rw [seen_append, ← huse]
    rfl
  have hseen₁ : seen (c.history ++ [(H264Act.unit v n).event] ++ [.wrote w₀]) =
      { seen c.history with used := some (sps', pps) } := by
    rw [seen_append, hseen₀]
    exact next_wrote hnot _
  have hseen₂ : seen (c.history ++ [(H264Act.unit v n).event] ++ [.wrote w₀] ++ [.wrote w₁]) =
      { seen c.history with used := some (sps', pps), header := some w₁.body } := by
    rw [seen_append, hseen₁]
    exact next_header hw₁ _
  have hsplit : c.history ++ [(H264Act.unit v n).event, .wrote w₀, .wrote w₁] =
      c.history ++ [(H264Act.unit v n).event] ++ [.wrote w₀] ++ [.wrote w₁] := by
    simp only [List.append_assoc, List.cons_append, List.nil_append]
  have hcarries : Carries w₁.body sps' pps := by
    rw [hbody, hblock]
    exact carries_spsPpsBody heap hlen
  rw [hsplit, hseen₂]
  refine ⟨⟨?_, ?_⟩, sps', pps, w₁.body, hsps', hpps, rfl, hcarries⟩
  · rw [hseen₂]
    refine ⟨?_, ?_, ?_, ?_, ?_, ?_⟩
    · rw [hmdata]
      exact h.agrees.sps
    · rw [hmdata]
      exact h.agrees.pps
    · rw [hmdata]
      exact h.agrees.size
    · rw [hmdata]
      exact h.agrees.unknown
    · rw [hmdata]
      rintro ⟨⟩
    · rintro used ⟨⟩
      exact ⟨w₁.body, rfl, hcarries⟩
  · have hall₀ := allAllowed_concat h.allowed (allowed_event (seen c.history) (.unit v n))
    have hone₀ : avcPacketType w₀ ≠ some 1 := by
      rw [hw₀]
      decide
    have hone₁ : avcPacketType w₁ ≠ some 1 := by
      rw [hw₁]
      decide
    have hall₁ := allAllowed_concat (e := .wrote w₀) hall₀
      ⟨fun hone => absurd hone hone₀, fun hzero => absurd hzero hnot⟩
    refine allAllowed_concat hall₁ ⟨fun hone => absurd hone hone₁, fun _ => ?_⟩
    rw [hseen₁]
    exact ⟨Option.ne_none_iff_exists'.mpr ⟨sps', hsps'⟩, Option.ne_none_iff_exists'.mpr ⟨pps, hpps⟩⟩

/-- The history of a step, when it is known what was written. -/
theorem ConfigInv.step {c : Conn} {act : H264Act} {flv : FlvOut} {ws : List Write}
    (hwrites : flv.writes = c.flv.writes ++ ws)
    (h : ConfigInv ⟨flv, c.history ++ act.event :: ws.map .wrote⟩) :
    ConfigInv ⟨flv, c.history ++ act.event :: (flv.writes.drop c.flv.writes.length).map .wrote⟩ := by
  rw [hwrites, List.drop_left]
  exact h

/-- One unit keeps the invariant, if it is ready. -/
theorem configInv_step {c c' : Conn} {act : H264Act} (h : ConfigInv c) (hready : UnitReady c act)
    (hstep : connStep c act = some c') : ConfigInv c' := by
  obtain ⟨flv', hunit, rfl⟩ := Option.map_eq_some_iff.mp hstep
  cases act with
  | clear =>
    cases hunit
    exact .step (List.append_nil _).symm (h.event .clear h.agrees.clear)
  | unit v n =>
    obtain ⟨-, hfresh, hidr, hslice⟩ := hready
    have hnext : (seen c.history).next (H264Act.unit v n).event =
      (seen c.history).receive n (if naluType n.head = .sps then v.decode n.bytes else none) := rfl
    rcases h264Nal_cases hunit with ⟨htype, size, hsize, rfl⟩ | ⟨htype, rfl⟩ |
      ⟨htype, flv₁, hsend, w, hw, hwrites, hmdata⟩ | ⟨htype, hkey, w, hw, hwrites, hmdata⟩ |
      ⟨hsps, hpps, hidr, rfl⟩
    · refine .step (List.append_nil _).symm (h.event (.unit v n) ?_)
      rw [hnext, if_pos htype, hsize, Seen.receive, htype]
      exact h.agrees.keepSps n.bytes size
    · refine .step (List.append_nil _).symm (h.event (.unit v n) ?_)
      rw [hnext, Seen.receive, htype]
      exact h.agrees.keepPps n.bytes
    · rcases sendConfiguration_cases hsend with ⟨hstatus, rfl⟩ |
        ⟨hstatus, hmdata₁, sps, hsps, w₀, w₁, hwrites₁, hw₀, hw₁, hbody⟩
      · have hcurrent := hidr htype hstatus
        have hreceive : (seen c.history).next (H264Act.unit v n).event = seen c.history := by
          rw [hnext, Seen.receive, htype]
          exact hcurrent.use
        exact .step hwrites (h.received hreceive hcurrent hw hmdata)
      · obtain ⟨hinv, hconfigured⟩ := h.header htype hstatus (hfresh htype hstatus) hsps hw₀ hw₁ hbody
          hmdata₁ (v := v)
        have hafter := hinv.unit hconfigured hw hmdata
        rw [hwrites₁, List.append_assoc] at hwrites
        rw [List.append_assoc] at hafter
        exact .step hwrites hafter
    · have hreceive : (seen c.history).next (H264Act.unit v n).event = seen c.history := by
        rw [hnext, Seen.receive, htype]
      exact .step hwrites (h.received hreceive (hslice htype hkey) hw hmdata)
    · refine .step (List.append_nil _).symm (h.event (.unit v n) ?_)
      have hreceive : (seen c.history).next (H264Act.unit v n).event = seen c.history := by
        rw [hnext, Seen.receive]
        split
        · next htype => exact absurd htype hsps
        · next htype => exact absurd htype hpps
        · next htype => exact absurd htype hidr
        · rfl
      rw [hreceive]
      exact h.agrees

/-- A unit that is ready goes through. -/
theorem connStep_ready {c : Conn} {act : H264Act} (h : ConfigInv c) (hready : UnitReady c act) :
    ∃ c', connStep c act = some c' ∧ ConfigInv c' := by
  have hsome : (unitStep c.flv act.act).isSome := by
    rw [unitStep_isSome]
    cases act with
    | clear => trivial
    | unit v n =>
      refine ⟨hready.1, fun htype hstatus => ?_⟩
      obtain ⟨sps, hsps, pps, hpps, hlen⟩ := hready.2.1 htype hstatus
      rw [SpsPpsFits, h.agrees.sps, h.agrees.pps, Option.mem_def.mp hpps]
      exact ⟨sps, hsps, hlen⟩
  have hconn : (connStep c act).isSome := by
    rw [connStep, Option.isSome_map]
    exact hsome
  obtain ⟨c', hstep⟩ := Option.isSome_iff_exists.mp hconn
  exact ⟨c', hstep, configInv_step h hready hstep⟩

/-! ## Whole runs -/

/-- The history changes nothing. -/
theorem run_conn {acts : List H264Act} {c c' : Conn} (h : run connStep c acts = some c') :
    run unitStep c.flv (acts.map H264Act.act) = some c'.flv := by
  induction acts generalizing c with
  | nil =>
    cases h
    rfl
  | cons act acts ih =>
    obtain ⟨c₁, hstep, hrest⟩ := run_cons_eq_some.mp h
    obtain ⟨flv, hunit, rfl⟩ := Option.map_eq_some_iff.mp hstep
    exact run_cons_eq_some.mpr ⟨flv, hunit, ih hrest⟩

theorem acts_call (call : H264Call) : call.call.acts = call.acts.map H264Act.act := by
  cases call with
  | video v =>
    rw [H264Call.acts, List.map_map]
    rfl
  | clear => rfl

theorem acts_calls (calls : List H264Call) :
    (calls.map H264Call.call).flatMap Call.acts = (calls.flatMap H264Call.acts).map H264Act.act := by
  rw [List.flatMap_map, List.map_flatMap]
  exact congrArg (calls.flatMap ·) (funext acts_call)

/-- **In every run whose units come only when they are ready**, a sequence header with the most recent
parameter sets was written before every unit, since the last clearing and the last change of the
resolution, and none before both parameter sets had come. -/
theorem configured_of_unitReady (calls : List H264Call)
    (hok : Meets connStep UnitReady .started (calls.flatMap H264Call.acts)) :
    ∃ c, run connStep .started (calls.flatMap H264Call.acts) = some c ∧
      run callStep (flvOutStart .built) (calls.map H264Call.call) = some c.flv ∧ AllAllowed c.history := by
  obtain ⟨c, hrun, hinv⟩ := run_of_meets (fun _ _ => connStep_ready) configInv_started hok
  refine ⟨c, hrun, ?_, hinv.allowed⟩
  rw [run_callStep, acts_calls]
  exact run_conn hrun

/-- A buffer of these units. -/
def stream (units : List NalUnit) : Video :=
  ⟨(AnnexB.mk units 0).bytes, 40, fun _ => 0, fun _ => 0, fun _ => some (640, 480)⟩

/-- After the clearing the header is written again. -/
def readyCalls : List H264Call :=
  [.video (stream [spsUnit, ppsUnit, idrUnit, sliceUnit]), .clear, .video (stream [idrUnit, sliceUnit])]

theorem configured_of_unitReady_cleared :
    ∃ c, run connStep .started (readyCalls.flatMap H264Call.acts) = some c ∧
      c.flv.writes.length = 9 ∧ AllAllowed c.history := by
  obtain ⟨c, hrun, -, hall⟩ := configured_of_unitReady readyCalls (by decide +kernel)
  refine ⟨c, hrun, ?_, hall⟩
  have hwrites : (run connStep .started (readyCalls.flatMap H264Call.acts)).map
      (fun c => c.flv.writes.length) = some 9 := by decide +kernel
  rw [hrun] at hwrites
  exact Option.some.inj hwrites

/-- After the clearing a slice comes before an IDR slice. -/
def sliceCalls : List H264Call :=
  [.video (stream [spsUnit, ppsUnit, idrUnit]), .clear, .video (stream [sliceUnit])]

/-- It is written, and no sequence header since the clearing. -/
def sliceTag : Write :=
  .tag [0, 0, 0, 21] [9, 0, 0, 10, 0, 0, 40, 0, 0, 0, 0] (packetBody 0x27 [0x41])

theorem slice_written_unconfigured :
    ∃ c, run connStep .started (sliceCalls.flatMap H264Call.acts) = some c ∧
      c.history.getLast? = some (.wrote sliceTag) ∧ (seen c.history.dropLast).header = none ∧
      ¬AllAllowed c.history := by
  have hrun : (run connStep .started (sliceCalls.flatMap H264Call.acts)).any (fun c =>
      decide (c.history.getLast? = some (.wrote sliceTag) ∧ (seen c.history.dropLast).header = none)) =
        true := by decide +kernel
  obtain ⟨c, hc, hlast⟩ := (Option.any_eq_true _ _).mp hrun
  obtain ⟨hlast, hheader⟩ := of_decide_eq_true hlast
  refine ⟨c, hc, hlast, hheader, fun hall => ?_⟩
  have hsplit : c.history = c.history.dropLast ++ [.wrote sliceTag] :=
    (List.dropLast_append_getLast? _ hlast).symm
  obtain ⟨sps, pps, body, -, -, hbody, -⟩ := (hall c.history.dropLast (.wrote sliceTag) [] hsplit).1 rfl
  rw [hheader] at hbody
  cases hbody

end ProgrammingPath.Flv
