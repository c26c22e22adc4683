import ProgrammingPath.Lib.Framing
import ProgrammingPath.Mes.Net

/-!
# Reassembling the stream

`parseReadBuff` handles one frame per call and is called once per `readyRead`. For every list of
frames and every cutting of their bytes into reads, `readyReads_toByteArray_iff` says when all of
them have been handled after the last read: exactly when the reads keep up with the frames. Two
frames that arrive in one read at the end of the stream are therefore not both handled.
-/

namespace ProgrammingPath.Mes

open ProgrammingPath.Qt ProgrammingPath.Lib.Framing

/-! ## Cutting a frame built by `toByteArray` -/

namespace Net

/-- The search in a buffer that starts with the head byte. -/
theorem framePosition_head (t : QByteArray) :
    framePosition (0x5A :: t) =
      if t.length < 4 then none
      else if t.length + 1 < 7 + leWord (t.getD 2 0) (t.getD 3 0) then none
      else some (0, 7 + leWord (t.getD 2 0) (t.getD 3 0)) := by
  have hhead : (0x5A :: t).findIdx (· == 0x5A) = 0 := by
    rw [List.findIdx_cons]
    rfl
  have hsize : 1 + 4 + leWord (t.getD 2 0) (t.getD 3 0) + 2 =
      7 + leWord (t.getD 2 0) (t.getD 3 0) := by omega
  unfold framePosition
  simp only [hhead, List.length_cons, Nat.zero_add, List.getD_cons_succ, hsize]
  rw [if_neg (by omega)]
  by_cases h : t.length < 4
  · rw [if_pos (by omega), if_pos h]
  · rw [if_neg (by omega), if_neg h]

theorem cutFrame_nil : cutFrame [] = none := by decide

variable {p : MESPack}

/-- The bytes of a frame behind its head byte. -/
theorem toByteArray_eq_cons (h : p.body.length ≤ 65534) :
    ∃ t, p.toByteArray = 0x5A :: t ∧ t.length = p.body.length + 7 ∧
      leWord (t.getD 2 0) (t.getD 3 0) = p.body.length + 1 := by
  have hlen := MESPack.length_toByteArray h
  rw [MESPack.toByteArray_eq h] at hlen ⊢
  refine ⟨_, rfl, by simp, ?_⟩
  show leWord (UInt16.ofNat (1 + p.body.length)).toUInt8
    (UInt16.ofNat (1 + p.body.length) >>> 8).toUInt8 = _
  rw [leWord_ofNat (by omega), Nat.add_comm]

/-- `parseReadBuff` recognises every frame that `toByteArray` builds from a body of at most 65534
bytes. -/
theorem cuts_toByteArray (h : p.body.length ≤ 65534) : Cuts cutFrame p.toByteArray := by
  obtain ⟨t, ht, hlen, hword⟩ := toByteArray_eq_cons h
  rw [ht]
  refine ⟨by simp, ?_, ?_⟩
  · intro rest
    have hword' : leWord ((t ++ rest).getD 2 0) ((t ++ rest).getD 3 0) = p.body.length + 1 := by
      rw [List.getD_append _ _ _ _ (by omega), List.getD_append _ _ _ _ (by omega), hword]
    have hend : 7 + (p.body.length + 1) = (0x5A :: t).length := by
      rw [List.length_cons]
      omega
    rw [List.cons_append, cutFrame, framePosition_head, hword', List.length_append,
      if_neg (by omega), if_neg (by omega), hend, Option.map_some, List.drop_zero, Nat.sub_zero,
      ← List.cons_append, List.take_left, List.drop_left]
  · -- a proper beginning of the frame is either too short to have a length, or shorter than it says
    intro q s hqs hs
    cases q with
    | nil => exact cutFrame_nil
    | cons x q =>
      rw [List.cons_append, List.cons.injEq] at hqs
      obtain ⟨rfl, rfl⟩ := hqs
      have hspos : 0 < s.length := List.length_pos_iff.mpr hs
      rw [List.length_append] at hlen
      rw [cutFrame, framePosition_head]
      by_cases hq : q.length < 4
      · rw [if_pos hq]
        rfl
      · rw [List.getD_append _ _ _ _ (by omega), List.getD_append _ _ _ _ (by omega)] at hword
        rw [if_neg hq, hword, if_pos (by omega)]
        rfl

/-! ## One call per read -/

/-- Deliver reads to a socket one after the other, each with the database as it is at that time.
Returns the packets handled. -/
def readyReads (sock : Sock) : Net → List (DB × QByteArray) → Net × List MESPack
  | net, [] => (net, [])
  | net, (db, array) :: rest =>
    let r := net.slotReadyRead db sock array
    let t := readyReads sock r.1 rest
    (t.1, r.2.2.toList ++ t.2)

/-- The slots are the reader of `Lib.Framing` with `cutFrame`. -/
theorem readyReads_eq (sock : Sock) (net : Net) (arrays : List (DB × QByteArray)) :
    (readyReads sock net arrays).2 =
        (reads cutFrame (net.buff sock) (arrays.map Prod.snd)).1.map MESPack.parse ∧
      (readyReads sock net arrays).1.buff sock =
        (reads cutFrame (net.buff sock) (arrays.map Prod.snd)).2 := by
  induction arrays generalizing net with
  | nil => exact ⟨rfl, rfl⟩
  | cons r rest ih =>
    obtain ⟨db, array⟩ := r
    obtain ⟨hpacks, hbuff⟩ := ih (net.slotReadyRead db sock array).1
    rw [buff_slotReadyRead, if_pos rfl] at hpacks hbuff
    simp only [readyReads, pack_slotReadyRead, hpacks, hbuff, List.map_cons]
    cases hcut : cutFrame (net.buff sock ++ array) with
    | none => simp [reads, hcut]
    | some c => simp [reads, hcut]

/-- Whatever the reads are, the packets handled are the first ones sent, in order, and the frames
not handled are what the buffer holds. -/
theorem readyReads_prefix {frames : List MESPack} (hbody : ∀ p ∈ frames, p.body.length ≤ 65534)
    {net : Net} {sock : Sock} (hbuff : net.buff sock = []) {arrays : List (DB × QByteArray)}
    (hcat : (arrays.map Prod.snd).flatten = (frames.map MESPack.toByteArray).flatten) :
    ∃ handled waiting, frames = handled ++ waiting ∧
      (readyReads sock net arrays).2 = handled.map (fun p => MESPack.parse p.toByteArray) ∧
      (readyReads sock net arrays).1.buff sock = (waiting.map MESPack.toByteArray).flatten := by
  obtain ⟨hpacks, hrest⟩ := readyReads_eq sock net arrays
  rw [hbuff] at hpacks hrest
  have hcuts : ∀ f ∈ frames.map MESPack.toByteArray, Cuts cutFrame f := by
    intro f hf
    obtain ⟨p, hp, rfl⟩ := List.mem_map.mp hf
    exact cuts_toByteArray (hbody p hp)
  have hpre : [] ++ (arrays.map Prod.snd).flatten = (frames.map MESPack.toByteArray).flatten := hcat
  obtain ⟨und, hund, hund'⟩ := reads_prefix hcuts cutFrame_nil hpre
  obtain ⟨handled, waiting, rfl, hh, rfl⟩ := List.map_eq_append_iff.mp hund
  refine ⟨handled, waiting, rfl, ?_, ?_⟩
  · rw [hpacks, ← hh, List.map_map]
    rfl
  · rw [hrest, hund']

/-- **Stream reassembly.** Cut the bytes of a list of frames into reads in any way and deliver them
to a socket with an empty buffer: the packets handled are those frames, each once and in order,
with nothing left in the buffer, if and only if the reads keep up with the frames. -/
theorem readyReads_toByteArray_iff (frames : List MESPack)
    (hbody : ∀ p ∈ frames, p.body.length ≤ 65534) (net : Net) (sock : Sock)
    (hbuff : net.buff sock = []) (arrays : List (DB × QByteArray))
    (hcat : (arrays.map Prod.snd).flatten = (frames.map MESPack.toByteArray).flatten) :
    ((readyReads sock net arrays).2.map (fun p => (p.cmdSerial, p.body, p.checkFlag)) =
          frames.map (fun p => (p.cmdSerial, p.body, true)) ∧
        (readyReads sock net arrays).1.buff sock = []) ↔
      KeepsUp (frames.map MESPack.toByteArray) (arrays.map Prod.snd) := by
  have hcuts : ∀ f ∈ frames.map MESPack.toByteArray, Cuts cutFrame f := by
    intro f hf
    obtain ⟨p, hp, rfl⟩ := List.mem_map.mp hf
    exact cuts_toByteArray (hbody p hp)
  obtain ⟨hpacks, hrest⟩ := readyReads_eq sock net arrays
  rw [hbuff] at hpacks hrest
  rw [← reads_eq_iff hcuts cutFrame_nil hcat]
  constructor
  · rintro ⟨hall, -⟩
    have hpre : [] ++ (arrays.map Prod.snd).flatten =
        (frames.map MESPack.toByteArray).flatten := hcat
    apply reads_eq_of_length hcuts cutFrame_nil hpre
    have hlen := congrArg List.length hall
    rw [hpacks, List.length_map, List.length_map, List.length_map] at hlen
    rw [hlen, List.length_map]
  · intro hreads
    rw [hreads] at hpacks hrest
    refine ⟨?_, hrest⟩
    rw [hpacks, List.map_map, List.map_map]
    apply List.map_congr_left
    intro p hp
    obtain ⟨hcmd, hb, hflag⟩ := MESPack.parse_toByteArray (hbody p hp)
    simp only [Function.comp, hcmd, hb, hflag]

/-- Two answers cut into three reads, the second of which holds the end of the first answer and the
start of the second. -/
theorem readyReads_toByteArray_iff_three_reads :
    let answer : MESPack := { cmdSerial := 0x93, body := [0] }
    let arrays : List (DB × QByteArray) :=
      [({}, answer.toByteArray.take 4),
        ({}, answer.toByteArray.drop 4 ++ answer.toByteArray.take 3),
        ({}, answer.toByteArray.drop 3)]
    (readyReads .a {} arrays).2.map (fun p => (p.cmdSerial, p.body, p.checkFlag)) =
        [(0x93, [0], true), (0x93, [0], true)] ∧
      (readyReads .a {} arrays).1.buff .a = [] := by
  intro answer arrays
  exact (readyReads_toByteArray_iff [answer, answer] (by decide) {} .a rfl arrays
    (by decide)).mpr (by decide)

/-- Two answers in one read: the second one stays in the buffer. -/
theorem readyReads_two_in_one_read :
    ¬ ∀ (frames : List MESPack) (net : Net) (sock : Sock) (arrays : List (DB × QByteArray)),
      (∀ p ∈ frames, p.body.length ≤ 65534) → net.buff sock = [] → (∀ r ∈ arrays, r.2 ≠ []) →
      (arrays.map Prod.snd).flatten = (frames.map MESPack.toByteArray).flatten →
      (readyReads sock net arrays).2.map (fun p => (p.cmdSerial, p.body, p.checkFlag)) =
          frames.map (fun p => (p.cmdSerial, p.body, true)) ∧
        (readyReads sock net arrays).1.buff sock = [] := by
  intro h
  let answer : MESPack := { cmdSerial := 0x93, body := [0] }
  have := h [answer, answer] {} .a [({}, answer.toByteArray ++ answer.toByteArray)]
    (by decide) rfl (by decide) (by decide)
  revert this
  decide

end Net

end ProgrammingPath.Mes
