import Mathlib.Data.List.Induction
import ProgrammingPath.Lib.CString
import ProgrammingPath.Rtsp.Interleaved

/-!
# Responses and their buffer

`buff_rtsp` holds 2048 bytes, and behind the last byte of a response comes a zero. `during` collects what the turns of a
reader write to the buffer and which responses they hand over to `sscanf`; `buffSafe_iff` says for which streams all of
it stays inside.
-/

namespace ProgrammingPath.Rtsp

open ProgrammingPath.Lib

/-! ## What a turn does to the buffer -/

/-- The byte that a turn receives for a response. -/
def textByte (s : Reader) : Turn → Option UInt8
  | .data _ => if s.result = none ∧ s.rflag = .text then s.outstanding.head? else none
  | _ => none

/-- The turn completes the four bytes `RTSP`. -/
def magicArrives (s : Reader) : Turn → Bool
  | .data _ => s.result = none ∧ s.rflag = .head ∧ s.outstanding.head?.map (s.packetHead ++ [·]) = some rtspMagic
  | _ => false

/-- Nothing of the response is missing. -/
def Reader.complete (s : Reader) : Bool :=
  s.headLength ≠ 0 ∧ s.contentLength + s.headLength = s.buffRtsp.length

/-- The response that a turn hands over to `sscanf`. -/
def processed (s : Reader) (turn : Turn) : List (List UInt8) :=
  match textByte s turn with
  | none => []
  | some b =>
    if s.buffRtsp.length + 1 ≤ buffRtspSize ∧ (httpRecv s b).complete then [(httpRecv s b).buffRtsp] else []

/-- The places of `buff_rtsp->data` that a turn writes: `RTSP` at once, what follows byte by byte, and the zero. -/
def textWrites (s : Reader) (turn : Turn) : List Nat :=
  match textByte s turn with
  | none => if magicArrives s turn then List.range 4 else []
  | some b =>
    if s.buffRtsp.length + 1 ≤ buffRtspSize then
      if (httpRecv s b).complete then [s.buffRtsp.length, s.buffRtsp.length + 1] else [s.buffRtsp.length]
    else []

/-- What the turns of a run do, one after the other. -/
def during {β : Type} (pol : Policy) (out : Reader → Turn → List β) : Reader → List Turn → List β
  | _, [] => []
  | s, turn :: turns => out s turn ++ during pol out (readerStep pol s turn) turns

/-! ## Responses that fit -/

/-- How long a response is if its number counts as `conv` takes it. -/
def lengthBy (conv : Int → Int) (text : List UInt8) : Int :=
  let head := text.take (httpHeardGetlength text)
  let content := contentLengthLoop conv (head.length + 1) (-1) head
  head.length + if content = -1 then 0 else content

/-- How long the reader takes it to be, and how long its head says that it is. -/
def takenLength : List UInt8 → Int := lengthBy toInt

def statedLength : List UInt8 → Int := lengthBy id

/-- The response has an end, and there is room for it and for the zero. -/
def Fits (text : List UInt8) : Prop := httpHeardGetlength text ≠ 0 ∧ statedLength text < buffRtspSize

/-- The reader finds the end of the response in its buffer. -/
def FindsEnd (text : List UInt8) : Prop :=
  httpHeardGetlength text ≠ 0 ∧ httpHeardGetlength text ≤ takenLength text ∧ takenLength text ≤ text.length ∧
    takenLength text ≤ buffRtspSize

/-- Where the reader finds an end there is room for the zero, and what the head says fits as well. -/
def Sound (text : List UInt8) : Prop := FindsEnd text → takenLength text < buffRtspSize ∧ Fits text

/-- A response begins. -/
structure Reader.Begins (s : Reader) : Prop where
  result : s.result = none
  flag : s.rflag = .text
  buff : s.buffRtsp = rtspMagic
  head : s.headLength = 0
  content : s.contentLength = 0

/-- The response that is received, with all that is behind it. -/
def Reader.text (s : Reader) : List UInt8 := s.buffRtsp ++ s.outstanding

def Turn.arrives : Turn → Bool
  | .data _ => true
  | _ => false

/-- The response is not handed over, and every byte that arrives is one more in the buffer or leads to the error. -/
def Refused (pol : Policy) (s : Reader) : Prop :=
  ∀ turns, during pol processed s turns = [] ∧
    ((readerRun pol s turns).result = some (-1) ∨
      (readerRun pol s turns).result = none ∧ (readerRun pol s turns).rflag = .text ∧
        (readerRun pol s turns).buffRtsp.length =
          min (s.buffRtsp.length + turns.countP Turn.arrives) s.text.length ∧
        (readerRun pol s turns).buffRtsp.length ≤ buffRtspSize)

/-- Whatever arrives in whatever pieces: all writes are inside, and a response that does not fit is refused. -/
structure BuffSafe (pol : Policy) (mem : Mem) (bytes : List UInt8) : Prop where
  inside : ∀ turns, ∀ i ∈ during pol textWrites (.init mem bytes) turns, i < buffRtspSize
  refused : ∀ turns, (readerRun pol (.init mem bytes) turns).Begins →
    ¬Fits (readerRun pol (.init mem bytes) turns).text → Refused pol (readerRun pol (.init mem bytes) turns)

section

variable {pol : Policy} {s : Reader} {b : UInt8} {rest : List UInt8} {conv : Int → Int} {l : List UInt8} {turn : Turn}

/-! ## Where the head ends -/

theorem httpHeardGetlength_append (r : List UInt8) (h : httpHeardGetlength l ≠ 0) :
    httpHeardGetlength (l ++ r) = httpHeardGetlength l := httpHeardGetlengthFrom_append_right r h

theorem length_take_head (l : List UInt8) : (l.take (httpHeardGetlength l)).length = httpHeardGetlength l := by
  have hle := httpHeardGetlengthFrom_le 0 l
  rw [List.length_take, httpHeardGetlength]
  omega

theorem lengthBy_append (r : List UInt8) (h : httpHeardGetlength l ≠ 0) :
    lengthBy conv (l ++ r) = lengthBy conv l := by
  have hle := httpHeardGetlengthFrom_le 0 l
  have htake : (l ++ r).take (httpHeardGetlength l) = l.take (httpHeardGetlength l) :=
    List.take_append_of_le_length (by rw [httpHeardGetlength]; omega)
  rw [lengthBy, lengthBy, httpHeardGetlength_append r h, htake]

/-- There is no line end in the first four bytes. -/
theorem four_lt_of_magic {r : List UInt8} (h : httpHeardGetlength (rtspMagic ++ r) ≠ 0) :
    4 < httpHeardGetlength (rtspMagic ++ r) := by
  have hskip : httpHeardGetlength (rtspMagic ++ r) = httpHeardGetlengthFrom 4 r := rfl
  have hbounds := httpHeardGetlengthFrom_bounds 4 r
  omega

/-- A head that ends in a text ends in the first part of it when that is long enough. -/
theorem httpHeardGetlength_of_append {r : List UInt8} (h : httpHeardGetlength (l ++ r) ≠ 0)
    (hle : httpHeardGetlength (l ++ r) ≤ l.length) : httpHeardGetlength l = httpHeardGetlength (l ++ r) :=
  httpHeardGetlengthFrom_append rfl (Nat.pos_of_ne_zero h) (by rw [Nat.zero_add]; exact hle)

/-! ## In a response -/

/-- What is known of the head belongs to the bytes in the buffer. -/
structure Reader.Counted (s : Reader) : Prop where
  head : s.headLength = httpHeardGetlength s.buffRtsp
  none : s.headLength = 0 → s.contentLength = 0
  content : s.headLength ≠ 0 → s.contentLength + s.headLength = takenLength s.buffRtsp

/-- The reader is in a response that is not complete. -/
structure Reader.Receiving (s : Reader) : Prop where
  result : s.result = none
  flag : s.rflag = .text
  magic : rtspMagic <+: s.buffRtsp
  short : s.buffRtsp.length ≤ buffRtspSize
  counted : s.Counted
  going : s.complete = false

theorem complete_iff (h : s.Counted) : s.complete = true ↔
    httpHeardGetlength s.buffRtsp ≠ 0 ∧ takenLength s.buffRtsp = s.buffRtsp.length := by
  rw [Reader.complete, decide_eq_true_iff, ← h.head]
  exact and_congr_right fun hne => by rw [h.content hne]

theorem receiving_of_begins (h : s.Begins) : Reader.Receiving s where
  result := h.result
  flag := h.flag
  magic := h.buff ▸ List.prefix_refl _
  short := by rw [h.buff]; decide
  counted := ⟨by rw [h.head, h.buff]; rfl, fun _ => h.content, fun hne => absurd h.head hne⟩
  going := by
    rw [Reader.complete, decide_eq_false_iff_not, not_and]
    exact fun hne => absurd h.head hne

/-- `_http_recv` counts on. -/
theorem counted_httpRecv (h : s.Counted) (b : UInt8) : (httpRecv s b).Counted := by
  by_cases hzero : s.headLength = 0
  · have heq : httpRecv s b = { s with
        buffRtsp := s.buffRtsp ++ [b]
        headLength := httpHeardGetlength (s.buffRtsp ++ [b])
        contentLength :=
          if (if httpHeardGetlength (s.buffRtsp ++ [b]) ≠ 0 then
            httpHeadGetContentLength ((s.buffRtsp ++ [b]).take (httpHeardGetlength (s.buffRtsp ++ [b])))
          else s.contentLength) = -1 then 0
          else if httpHeardGetlength (s.buffRtsp ++ [b]) ≠ 0 then
            httpHeadGetContentLength ((s.buffRtsp ++ [b]).take (httpHeardGetlength (s.buffRtsp ++ [b])))
          else s.contentLength } := by
      simp only [httpRecv, hzero, if_true]
    rw [heq]
    refine ⟨rfl, fun hnone => ?_, fun hne => ?_⟩
    · simp only at hnone ⊢
      rw [if_neg (not_not.mpr hnone), h.none hzero]
      rfl
    · simp only at hne ⊢
      rw [if_pos hne, takenLength, lengthBy, length_take_head, httpHeadGetContentLength, length_take_head]
      exact Int.add_comm _ _
  · have heq : httpRecv s b = { s with buffRtsp := s.buffRtsp ++ [b] } := by
      simp only [httpRecv, hzero, if_false]
    have hhead : httpHeardGetlength s.buffRtsp ≠ 0 := h.head ▸ hzero
    rw [heq]
    refine ⟨?_, fun hnone => absurd hnone hzero, fun _ => ?_⟩
    · rw [httpHeardGetlength_append _ hhead]
      exact h.head
    · rw [takenLength, lengthBy_append _ hhead]
      exact h.content hzero

theorem textByte_eq (h : Reader.Receiving s) (hout : s.outstanding = b :: rest) (n : Nat) : textByte s (.data n) = some b := by
  rw [textByte, if_pos ⟨h.result, h.flag⟩, hout, List.head?_cons]

theorem textByte_nil (hout : s.outstanding = []) : textByte s turn = none := by
  cases turn with
  | data n =>
    rw [textByte, hout]
    split <;> rfl
  | idle | closed => rfl

theorem complete_httpRecv (b : UInt8) (rest : List UInt8) :
    (httpRecv { s with outstanding := rest } b).complete = (httpRecv s b).complete := by
  simp only [httpRecv]
  split <;> rfl

/-- A byte of a response is one too many, the last one, or neither. -/
theorem readerStep_receiving (pol : Policy) (h : s.Receiving) (hout : s.outstanding = b :: rest) (n : Nat) :
    readerStep pol s (.data n) =
      if s.buffRtsp.length = buffRtspSize then { s with outstanding := rest, result := some (-1) }
      else if (httpRecv s b).complete then
        pol.answered (httpRecv { s with outstanding := rest } b) (sscanfCode (s.buffRtsp ++ [b]))
      else httpRecv { s with outstanding := rest } b := by
  have hshort := h.short
  rw [readerStep_text n h.result hout h.flag, onText, buffRtsp_httpRecv]
  by_cases hfull : s.buffRtsp.length = buffRtspSize
  · rw [if_pos hfull, if_pos (Nat.lt_succ_of_le hfull.ge)]
  · rw [if_neg hfull, if_neg (by show ¬buffRtspSize < s.buffRtsp.length + 1; omega), ← complete_httpRecv b rest,
      Reader.complete]
    simp only [decide_eq_true_iff, buffRtsp_httpRecv]

theorem receiving_httpRecv (h : s.Receiving) (rest : List UInt8) (hlt : s.buffRtsp.length < buffRtspSize)
    (hgoing : (httpRecv s b).complete = false) : (httpRecv { s with outstanding := rest } b).Receiving where
  result := by
    simp only [httpRecv]
    split <;> exact h.result
  flag := by
    rw [rflag_httpRecv]
    exact h.flag
  magic := by
    rw [buffRtsp_httpRecv]
    exact h.magic.trans (List.prefix_append _ _)
  short := by
    rw [buffRtsp_httpRecv, List.length_append, List.length_singleton]
    exact hlt
  counted :=
    have hcounted : { s with outstanding := rest }.Counted := ⟨h.counted.head, h.counted.none, h.counted.content⟩
    counted_httpRecv hcounted b
  going := by
    rw [complete_httpRecv]
    exact hgoing

/-! ## Which responses are complete -/

theorem text_httpRecv (hout : s.outstanding = b :: rest) :
    (httpRecv { s with outstanding := rest } b).text = s.text := by
  rw [Reader.text, Reader.text, buffRtsp_httpRecv, outstanding_httpRecv, hout, List.append_assoc, List.singleton_append]

/-- The last byte that is missing is at the end of the response. -/
theorem complete_httpRecv_iff (h : s.Receiving) (hout : s.outstanding = b :: rest)
    (hlt : s.buffRtsp.length < buffRtspSize) : (httpRecv s b).complete = true ↔
      FindsEnd s.text ∧ takenLength s.text = (s.buffRtsp.length + 1 : Nat) := by
  have hcounted := counted_httpRecv h.counted b
  have htext : s.text = s.buffRtsp ++ [b] ++ rest := by
    rw [Reader.text, hout, List.append_assoc, List.singleton_append]
  have hlen : (s.buffRtsp ++ [b]).length = s.buffRtsp.length + 1 := List.length_append
  rw [complete_iff hcounted, buffRtsp_httpRecv, hlen, htext]
  constructor
  · rintro ⟨hhead, htaken⟩
    have hle := httpHeardGetlengthFrom_le 0 (s.buffRtsp ++ [b])
    rw [FindsEnd, takenLength, lengthBy_append _ hhead, httpHeardGetlength_append _ hhead, ← takenLength, htaken,
      List.length_append, hlen]
    rw [hlen] at hle
    refine ⟨⟨hhead, ?_, ?_, ?_⟩, rfl⟩
    · rw [httpHeardGetlength]
      omega
    · omega
    · omega
  · rintro ⟨⟨hhead, hle, -, -⟩, htaken⟩
    rw [htaken] at hle
    have hsame := httpHeardGetlength_of_append hhead (by rw [hlen]; omega)
    rw [← hsame] at hhead
    rw [takenLength, lengthBy_append _ hhead] at htaken
    exact ⟨hhead, htaken⟩

theorem exists_outstanding (hlong : s.buffRtsp.length < s.text.length) : ∃ b rest, s.outstanding = b :: rest := by
  apply List.exists_cons_of_ne_nil
  intro hnil
  rw [Reader.text, hnil, List.append_nil] at hlong
  exact Nat.lt_irrefl _ hlong

theorem length_httpRecv (b : UInt8) : (httpRecv s b).buffRtsp.length = s.buffRtsp.length + 1 := by
  rw [buffRtsp_httpRecv]
  exact List.length_append

/-- A response whose end is found is handed over when its last byte has come, and the zero is written behind it. -/
theorem exists_processed (pol : Policy) (h : s.Receiving) (hfinds : FindsEnd s.text) {n : Nat}
    (hn : takenLength s.text = (s.buffRtsp.length + n + 1 : Nat)) :
    ∃ turns, s.buffRtsp.length + n + 1 ∈ during pol textWrites s turns ∧ during pol processed s turns ≠ [] := by
  induction n generalizing s with
  | zero =>
    obtain ⟨-, -, hlong, hroom⟩ := id hfinds
    rw [hn] at hlong hroom
    obtain ⟨b, rest, hout⟩ := exists_outstanding (s := s) (by omega)
    have hlt : s.buffRtsp.length + 1 ≤ buffRtspSize := by omega
    have hbyte := textByte_eq h hout 0
    have hcomplete := (complete_httpRecv_iff h hout hlt).mpr ⟨hfinds, hn⟩
    refine ⟨[.data 0], ?_, ?_⟩
    · rw [during, textWrites, hbyte]
      simp only [if_pos hlt, hcomplete, if_true]
      simp
    · rw [during, processed, hbyte]
      simp only [if_pos (And.intro hlt hcomplete)]
      exact List.append_ne_nil_of_left_ne_nil (List.cons_ne_nil _ _) _
  | succ n ih =>
    obtain ⟨-, -, hlong, hroom⟩ := id hfinds
    rw [hn] at hlong hroom
    obtain ⟨b, rest, hout⟩ := exists_outstanding (s := s) (by omega)
    have hlt : s.buffRtsp.length < buffRtspSize := by omega
    have hgoing : (httpRecv s b).complete = false := by
      rw [← Bool.not_eq_true, complete_httpRecv_iff h hout hlt, hn]
      rintro ⟨-, heq⟩
      omega
    have hstep : readerStep pol s (.data 0) = httpRecv { s with outstanding := rest } b := by
      rw [readerStep_receiving pol h hout, if_neg (Nat.ne_of_lt hlt), if_neg (by rw [hgoing]; exact Bool.false_ne_true)]
    have htext := text_httpRecv hout
    have hlen : s.buffRtsp.length + (n + 1) + 1 =
        (httpRecv { s with outstanding := rest } b).buffRtsp.length + n + 1 := by
      rw [length_httpRecv]
      show _ = s.buffRtsp.length + 1 + n + 1
      omega
    obtain ⟨turns, hwrites, hprocessed⟩ := ih (receiving_httpRecv h rest hlt hgoing) (htext.symm ▸ hfinds)
      (by rw [htext, hn, hlen])
    refine ⟨.data 0 :: turns, ?_, ?_⟩
    · rw [during, hstep, hlen]
      exact List.mem_append_right _ hwrites
    · rw [during, hstep]
      exact List.append_ne_nil_of_right_ne_nil _ hprocessed

/-! ## Safe runs -/

/-- A response that arrives is sound as far as the reader can see it. -/
def Kept (s : Reader) : Prop := s.result = none → s.rflag = .text → s.Receiving ∧ Sound s.text

theorem exists_of_textByte (h : textByte s turn = some b) :
    s.result = none ∧ s.rflag = .text ∧ ∃ n rest, turn = .data n ∧ s.outstanding = b :: rest := by
  cases turn with
  | data n =>
    rw [textByte] at h
    split at h
    · next hflag =>
      obtain ⟨rest, hout⟩ := List.head?_eq_some_iff.mp h
      exact ⟨hflag.1, hflag.2, n, rest, rfl, hout⟩
    · cases h
  | idle | closed => cases h

/-- A turn writes inside, and what it hands over fits. -/
theorem turn_of_kept (h : Kept s) (turn : Turn) :
    (∀ i ∈ textWrites s turn, i < buffRtspSize) ∧ (processed s turn ≠ [] → Fits s.text) := by
  rw [textWrites, processed]
  cases hbyte : textByte s turn with
  | none =>
    refine ⟨fun i hi => ?_, fun hne => absurd rfl hne⟩
    simp only at hi
    split at hi
    · exact Nat.lt_trans (List.mem_range.mp hi) (by decide)
    · cases hi
  | some b =>
    obtain ⟨hresult, hflag, n, rest, -, hout⟩ := exists_of_textByte hbyte
    obtain ⟨hreceiving, hsound⟩ := h hresult hflag
    by_cases hroom : s.buffRtsp.length + 1 ≤ buffRtspSize
    · by_cases hcomplete : (httpRecv s b).complete = true
      · obtain ⟨hfinds, htaken⟩ := (complete_httpRecv_iff hreceiving hout hroom).mp hcomplete
        obtain ⟨hlt, hfits⟩ := hsound hfinds
        rw [htaken] at hlt
        refine ⟨fun i hi => ?_, fun _ => hfits⟩
        simp only [if_pos hroom, hcomplete, if_true, List.mem_cons, List.not_mem_nil, or_false] at hi
        omega
      · refine ⟨fun i hi => ?_, fun hne => ?_⟩
        · simp only [if_pos hroom, if_neg hcomplete, List.mem_singleton] at hi
          rw [hi]
          exact hroom
        · exact absurd (if_neg fun hboth => hcomplete hboth.2) hne
    · refine ⟨fun i hi => ?_, fun hne => absurd (if_neg fun hboth => hroom hboth.1) hne⟩
      simp only [if_neg hroom] at hi
      cases hi

/-- The policies leave a response behind when it is answered. -/
structure Policy.Leaves (pol : Policy) : Prop where
  unknown : ∀ s, (pol.unknown s).result = none → (pol.unknown s).rflag = s.rflag
  answered : ∀ s code, (pol.answered s code).result = none → (pol.answered s code).rflag ≠ .text

theorem rtspRecv_leaves : rtspRecv.Leaves where
  unknown _ h := by cases h
  answered _ _ h := by cases h

theorem streamRecv_leaves : streamRecv.Leaves := by
  refine ⟨fun _ _ => rfl, fun s code h => ?_⟩
  simp only [streamRecv] at h ⊢
  split
  · exact Flag.noConfusion
  · next hcode =>
    rw [if_neg hcode] at h
    cases h

/-- A head that is complete leads to a response that begins, or to something else. -/
theorem onHead_cases (hleaves : pol.Leaves) (hresult : s.result = none) (hflag : s.rflag = .head)
    (hnone : (onHead pol s b).result = none) (htext : (onHead pol s b).rflag = .text) : (onHead pol s b).Begins := by
  have hhead (t : Reader) (ht : t.rflag = .head) : t.rflag ≠ .text := by
    rw [ht]
    exact Flag.noConfusion
  simp only [onHead] at hnone htext ⊢
  split at hnone
  · next hfour =>
    rw [if_pos hfour] at htext
    rw [if_pos hfour]
    split at hnone
    · next hmagic =>
      rw [if_pos hmagic]
      exact ⟨hresult, rfl, hmagic, rfl, rfl⟩
    · next hmagic =>
      rw [if_neg hmagic] at htext
      split at hnone
      · next hdollar =>
        rw [if_pos hdollar] at htext
        split at htext
        · cases htext
        · cases htext
      · next hdollar =>
        rw [if_neg hdollar, hleaves.unknown _ hnone] at htext
        exact absurd htext (hhead _ hflag)
  · next hfour =>
    rw [if_neg hfour] at htext
    exact absurd htext (hhead _ hflag)

theorem kept_step (hleaves : pol.Leaves) (h : Kept s) (turn : Turn)
    (hbegins : (readerStep pol s turn).Begins → Sound (readerStep pol s turn).text) :
    Kept (readerStep pol s turn) := by
  by_cases hresult : s.result = none
  · cases turn with
    | idle => rwa [readerStep_idle]
    | closed =>
      rw [readerStep_closed hresult]
      exact fun hnone => by cases hnone
    | data n =>
      cases hout : s.outstanding with
      | nil => rwa [readerStep_nil n hout]
      | cons b rest =>
        cases hflag : s.rflag with
        | head =>
          rw [readerStep_head n hresult hout hflag] at hbegins ⊢
          intro hnone htext
          have hbegin := onHead_cases (s := { s with outstanding := rest }) hleaves hresult hflag hnone htext
          exact ⟨receiving_of_begins hbegin, hbegins hbegin⟩
        | text =>
          obtain ⟨hreceiving, hsound⟩ := h hresult hflag
          rw [readerStep_receiving pol hreceiving hout]
          split
          · exact fun hnone => by cases hnone
          · next hfull =>
            have hlt := Nat.lt_of_le_of_ne hreceiving.short hfull
            split
            · exact fun hnone htext => absurd htext (hleaves.answered _ _ hnone)
            · next hgoing =>
              rw [Bool.not_eq_true] at hgoing
              intro _ _
              rw [text_httpRecv hout]
              exact ⟨receiving_httpRecv hreceiving rest hlt hgoing, hsound⟩
        | frame =>
          rw [readerStep_frame n hresult (by simp [hout]) hflag]
          split
          · exact fun hnone => by cases hnone
          · intro _ htext
            simp only [onFrame] at htext
            split at htext
            · cases htext
            · rw [show s.rflag = Flag.text from htext] at hflag
              cases hflag
  · rwa [readerStep_of_result hresult]

theorem during_of_result {β : Type} {out : Reader → Turn → List β} (hout : ∀ turn, out s turn = [])
    (h : s.result ≠ none) (turns : List Turn) : during pol out s turns = [] := by
  induction turns with
  | nil => rfl
  | cons turn turns ih => rw [during, hout, readerStep_of_result h, ih, List.append_nil]

theorem processed_of_textByte (h : textByte s turn = none) : processed s turn = [] := by rw [processed, h]

theorem textByte_of_result (h : s.result ≠ none) (turn : Turn) : textByte s turn = none := by
  cases turn with
  | data n => rw [textByte, if_neg fun hboth => h hboth.1]
  | idle | closed => rfl

/-- A reader that has returned hands nothing over. -/
theorem processed_of_error (pol : Policy) (h : s.result = some (-1)) (turns : List Turn) :
    during pol processed s turns = [] ∧ (readerRun pol s turns).result = some (-1) := by
  have hne : s.result ≠ none := by simp [h]
  refine ⟨during_of_result (fun turn => processed_of_textByte (textByte_of_result hne turn)) hne turns, ?_⟩
  rw [readerRun_of_result hne]
  exact h

/-- A response that does not fit, and whose end the reader does not take for found, is refused. -/
theorem refused_of_receiving (h : s.Receiving) (hsound : Sound s.text) (hfits : ¬Fits s.text) : Refused pol s := by
  intro turns
  induction turns generalizing s with
  | nil =>
    have hlen : s.buffRtsp.length ≤ s.text.length := by
      rw [Reader.text, List.length_append]
      exact Nat.le_add_right _ _
    refine ⟨rfl, .inr ⟨h.result, h.flag, ?_, h.short⟩⟩
    show s.buffRtsp.length = min (s.buffRtsp.length + 0) s.text.length
    omega
  | cons turn turns ih =>
    rw [during, readerRun_cons, List.countP_cons]
    cases turn with
    | idle =>
      rw [readerStep_idle]
      exact ih h hsound hfits
    | closed =>
      rw [readerStep_closed h.result]
      have hfailed : ({ s with result := some (-1) } : Reader).result = some (-1) := rfl
      obtain ⟨hnothing, herror⟩ := processed_of_error pol hfailed turns
      exact ⟨hnothing, .inl herror⟩
    | data n =>
      cases hout : s.outstanding with
      | nil =>
        rw [readerStep_nil n hout, processed_of_textByte (textByte_nil hout)]
        obtain ⟨hnothing, herror | ⟨hresult, hflag, hlen, hshort⟩⟩ := ih h hsound hfits
        · exact ⟨hnothing, .inl herror⟩
        · refine ⟨hnothing, .inr ⟨hresult, hflag, ?_, hshort⟩⟩
          have htext : s.text.length = s.buffRtsp.length := by rw [Reader.text, hout, List.append_nil]
          rw [hlen, htext]
          omega
      | cons b rest =>
        have hbyte := textByte_eq h hout n
        by_cases hfull : s.buffRtsp.length = buffRtspSize
        · rw [readerStep_receiving pol h hout, if_pos hfull, processed, hbyte]
          have hfailed : ({ s with outstanding := rest, result := some (-1) } : Reader).result = some (-1) := rfl
          obtain ⟨hnothing, herror⟩ := processed_of_error pol hfailed turns
          refine ⟨?_, .inl herror⟩
          rw [hnothing, List.append_nil]
          exact if_neg fun hboth => by omega
        · have hlt := Nat.lt_of_le_of_ne h.short hfull
          have hgoing : (httpRecv s b).complete = false := by
            rw [← Bool.not_eq_true, complete_httpRecv_iff h hout hlt]
            rintro ⟨hfinds, -⟩
            exact hfits (hsound hfinds).2
          have hnot : ¬(httpRecv s b).complete = true := by rw [hgoing]; exact Bool.false_ne_true
          have htext := text_httpRecv hout
          rw [readerStep_receiving pol h hout, if_neg hfull, if_neg hnot, processed, hbyte]
          obtain ⟨hnothing, hrest⟩ := ih (receiving_httpRecv h rest hlt hgoing) (htext.symm ▸ hsound) (htext.symm ▸ hfits)
          refine ⟨?_, hrest.imp_right fun ⟨hresult, hflag, hlen, hshort⟩ => ⟨hresult, hflag, ?_, hshort⟩⟩
          · rw [hnothing, List.append_nil]
            exact if_neg fun hboth => hnot hboth.2
          · rw [hlen, htext, length_httpRecv]
            show min (s.buffRtsp.length + 1 + _) _ = min (s.buffRtsp.length + (_ + 1)) _
            omega

theorem during_append {β : Type} {out : Reader → Turn → List β} (turns turns' : List Turn) :
    during pol out s (turns ++ turns') = during pol out s turns ++ during pol out (readerRun pol s turns) turns' := by
  induction turns generalizing s with
  | nil => rfl
  | cons turn turns ih => rw [List.cons_append, during, during, ih, readerRun_cons, List.append_assoc]

/-- The responses of a run are sound. -/
def SoundRuns (pol : Policy) (s : Reader) : Prop :=
  ∀ turns, (readerRun pol s turns).Begins → Sound (readerRun pol s turns).text

/-- From a state that is kept on every state of a run is. -/
theorem kept_run (hleaves : pol.Leaves) (h : Kept s) (hsound : SoundRuns pol s) (turns : List Turn) :
    Kept (readerRun pol s turns) := by
  induction turns using List.reverseRecOn with
  | nil => exact h
  | append_singleton turns turn ih =>
    have hbegins := hsound (turns ++ [turn])
    rw [readerRun_concat] at hbegins ⊢
    exact kept_step hleaves ih turn hbegins

theorem writes_of_soundRuns (hleaves : pol.Leaves) (h : Kept s) (hsound : SoundRuns pol s) (turns : List Turn) :
    ∀ i ∈ during pol textWrites s turns, i < buffRtspSize := by
  induction turns using List.reverseRecOn with
  | nil => exact fun i hi => absurd hi List.not_mem_nil
  | append_singleton turns turn ih =>
    intro i hi
    rw [during_append, List.mem_append] at hi
    rcases hi with hi | hi
    · exact ih i hi
    · rw [during, during, List.append_nil] at hi
      exact (turn_of_kept (kept_run hleaves h hsound turns) turn).1 i hi

/-- A response that begins and is not sound breaks the rule. -/
theorem sound_of_buffSafe {mem : Mem} {bytes : List UInt8} (h : BuffSafe pol mem bytes) :
    SoundRuns pol (.init mem bytes) := by
  intro turns hbegins hfinds
  obtain ⟨t, ht⟩ : ∃ t, t = readerRun pol (.init mem bytes) turns := ⟨_, rfl⟩
  rw [← ht] at hbegins hfinds ⊢
  obtain ⟨hhead, hle, hlong, hroom⟩ := id hfinds
  have hfour : 4 < httpHeardGetlength t.text := by
    rw [Reader.text, hbegins.buff] at hhead ⊢
    exact four_lt_of_magic hhead
  have hlen : t.buffRtsp.length = 4 := by
    rw [hbegins.buff]
    rfl
  obtain ⟨n, hn⟩ : ∃ n : Nat, takenLength t.text = (t.buffRtsp.length + n + 1 : Nat) :=
    ⟨(takenLength t.text).toNat - 5, by rw [hlen]; omega⟩
  obtain ⟨turns', hwrites, hprocessed⟩ := exists_processed pol (receiving_of_begins hbegins) hfinds hn
  refine ⟨?_, ?_⟩
  · rw [hn]
    apply Int.ofNat_lt.mpr
    apply h.inside (turns ++ turns')
    rw [during_append, ← ht]
    exact List.mem_append_right _ hwrites
  · by_contra hfits
    have hrefused := h.refused turns
    rw [← ht] at hrefused
    exact hprocessed (hrefused hbegins hfits turns').1

theorem buffSafe_of_leaves (hleaves : pol.Leaves) (mem : Mem) (bytes : List UInt8) :
    BuffSafe pol mem bytes ↔ SoundRuns pol (.init mem bytes) := by
  refine ⟨sound_of_buffSafe, fun hsound => ⟨?_, ?_⟩⟩
  · exact writes_of_soundRuns hleaves (fun _ hflag => by cases hflag) hsound
  · intro turns hbegins hfits
    exact refused_of_receiving (receiving_of_begins hbegins) (hsound turns hbegins) hfits

/-- The first four bytes of a stream that begins with a response. -/
theorem readerRun_magic (pol : Policy) (mem : Mem) (bytes : List UInt8) :
    readerRun pol (.init mem (rtspMagic ++ bytes)) (List.replicate 4 (.data 0)) =
      { Reader.init mem bytes with rflag := .text, buffRtsp := rtspMagic } := by
  have hbyte (head : List UInt8) (b : UInt8) (rest : List UInt8) (hlt : head.length < 3) :
      readerStep pol { Reader.init mem (b :: rest) with packetHead := head } (.data 0) =
        { Reader.init mem rest with packetHead := head ++ [b] } :=
    (readerStep_head 0 rfl rfl rfl).trans (onHead_of_lt hlt)
  have hlast : readerStep pol { Reader.init mem (80 :: bytes) with packetHead := [82, 84, 83] } (.data 0) =
      { Reader.init mem bytes with rflag := .text, buffRtsp := rtspMagic } :=
    (readerStep_head 0 rfl rfl rfl).trans (onHead_of_magic rfl)
  show readerRun pol { Reader.init mem (82 :: 84 :: 83 :: 80 :: bytes) with packetHead := [] }
    [.data 0, .data 0, .data 0, .data 0] = _
  rw [readerRun_cons, hbyte [] 82 _ (by decide), readerRun_cons, hbyte ([] ++ [82]) 84 _ (by decide), readerRun_cons,
    hbyte ([] ++ [82] ++ [84]) 83 _ (by decide), readerRun_cons]
  exact hlast

end

/-- The head of a response that says that 2007 bytes follow: with them it has 2048. -/
def fullHead : List UInt8 := text "RTSP/1.0 200 OK\r\nContent-Length: 2007\r\n\r\n"

end ProgrammingPath.Rtsp
