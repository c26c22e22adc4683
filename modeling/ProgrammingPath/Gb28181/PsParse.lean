import Mathlib.Data.List.Basic

/-!
# The parser of the program stream

GB28181 devices send an MPEG program stream in RTP packets. `ps_parse_loop` goes through the payload
of one RTP packet: it skips pack headers, system headers and stream maps, writes the payload of PES
packets to the H264 cache, and keeps in `rawdata_length` how much of the last one is still to come.
Everything else ends the parse of the payload.
-/

namespace ProgrammingPath.Gb28181

/-! ## `ps_parse_loop` -/

/-- The variables of the parser and what was written to the H264 cache. -/
structure Ps where
  rawdataLength : Nat
  videoFlag : Bool
  videoH264Iframe : Int
  cache : List UInt8
  deriving DecidableEq, Repr

def Ps.init : Ps := ⟨0, false, -1, []⟩

/-- `*(uint32_t*) p == ntohl(0x000001..)`. -/
def startsWith (code : UInt8) (p : List UInt8) : Bool := p.take 4 == [0, 0, 1, code]

def psIsHeader (p : List UInt8) : Bool := startsWith 0xBA p

def psIsShHeader (p : List UInt8) : Bool := startsWith 0xBB p

def psIsPsmHeader (p : List UInt8) : Bool := startsWith 0xBC p

def psIsPesHeader (p : List UInt8) : Bool := startsWith 0xE0 p || startsWith 0xC0 p

/-- The two bytes from offset `i` on, as `ntohs` reads them. -/
def ntohsAt (p : List UInt8) (i : Nat) : Nat := (p.getD i 0).toNat * 256 + (p.getD (i + 1) 0).toNat

/-- `h264_cache_write`. What it does for `video_h264_iframe` is only printing. -/
def h264CacheWrite (s : Ps) (data : List UInt8) : Ps :=
  { s with
    videoH264Iframe :=
      if s.videoH264Iframe = 1 ∨ s.videoH264Iframe = 0 then -1 else s.videoH264Iframe
    cache := s.cache ++ data }

/-- The branch of `ps_parse_loop` for a PES packet: the state and the bytes behind what was written.
`none` when the code would read or write outside the packet. -/
def onPes (s : Ps) (p : List UInt8) : Option (Ps × List UInt8) :=
  if p.length < 9 then none
  else
    let opesLen := (p.getD 8 0).toNat
    if p.length < 9 + opesLen ∨ ntohsAt p 4 < 3 + opesLen then none
    else
      let pdata := p.drop (9 + opesLen)
      let rawdata := ntohsAt p 4 - 3 - opesLen
      let s := { s with videoFlag := true }
      if rawdata ≤ pdata.length then
        some ({ h264CacheWrite s (pdata.take rawdata) with rawdataLength := 0 }, pdata.drop rawdata)
      else
        some ({ h264CacheWrite s pdata with rawdataLength := rawdata - pdata.length }, [])

/-- `ps_parse_loop`; every turn uses up bytes, so `fuel` need not exceed their number. -/
def psParseLoop : Nat → Ps → List UInt8 → Option Ps
  | 0, _, _ => none
  | fuel + 1, s, p =>
    if p = [] then some s
    else if p.length < 4 then none
    else if psIsHeader p then
      if p.length < 14 then none
      else psParseLoop fuel s (p.drop (14 + (p.getD 13 0 &&& 7).toNat))
    else if psIsShHeader p then
      if p.length < 6 then none else psParseLoop fuel s (p.drop (4 + 2 + ntohsAt p 4))
    else if psIsPsmHeader p then
      if p.length < 6 then none else psParseLoop fuel s (p.drop (4 + 2 + ntohsAt p 4))
    else if psIsPesHeader p then
      match onPes s p with
      | some (s, rest) => psParseLoop fuel s rest
      | none => none
    else if s.videoFlag ∧ 0 < s.rawdataLength then
      if s.rawdataLength < p.length then
        psParseLoop fuel
          { h264CacheWrite s (p.take s.rawdataLength) with rawdataLength := 0, videoFlag := false }
          (p.drop s.rawdataLength)
      else some { h264CacheWrite s p with rawdataLength := s.rawdataLength - p.length }
    -- "PS Parse err:[unknow]"
    else some s

/-- One RTP payload. -/
def psParse (s : Ps) (p : List UInt8) : Option Ps := psParseLoop (p.length + 1) s p

/-- The payloads one by one. -/
def psFeed (s : Ps) (payloads : List (List UInt8)) : Option Ps := payloads.foldlM psParse s

/-! ## Program streams -/

/-- A 16-bit number on the wire. -/
def htons (n : Nat) : List UInt8 := [UInt8.ofNat (n / 256), UInt8.ofNat (n % 256)]

/-- A pack header, a system header or stream map, or a PES packet. -/
inductive PsUnit
  | pack (clock : List UInt8) (last : UInt8) (stuffing : List UInt8) (hclock : clock.length = 9)
    (hstuffing : stuffing.length = (last &&& 7).toNat)
  | system (body : List UInt8) (hbody : body.length < 65536)
  | streamMap (body : List UInt8) (hbody : body.length < 65536)
  | pes (streamId flags1 flags2 : UInt8) (opes payload : List UInt8) (hid : 0xBD ≤ streamId)
    (hopes : opes.length < 256) (hlen : 3 + opes.length + payload.length < 65536)

namespace PsUnit

/-- Everything in front of the payload. -/
def head : PsUnit → List UInt8
  | pack clock last stuffing _ _ => [0, 0, 1, 0xBA] ++ (clock ++ last :: stuffing)
  | system body _ => [0, 0, 1, 0xBB] ++ (htons body.length ++ body)
  | streamMap body _ => [0, 0, 1, 0xBC] ++ (htons body.length ++ body)
  | pes streamId flags1 flags2 opes payload _ _ _ =>
    [0, 0, 1, streamId] ++ (htons (3 + opes.length + payload.length) ++
      (flags1 :: flags2 :: UInt8.ofNat opes.length :: opes))

/-- The payload of a PES packet. -/
def payload : PsUnit → List UInt8
  | pes _ _ _ _ payload _ _ _ => payload
  | _ => []

/-- A PES packet that `ps_is_pes_header` knows. -/
def recognised : PsUnit → Bool
  | pes streamId _ _ _ _ _ _ _ => streamId == 0xE0 || streamId == 0xC0
  | _ => false

/-- A PES packet that it does not know. -/
def foreign : PsUnit → Bool
  | pes streamId _ _ _ _ _ _ _ => !(streamId == 0xE0 || streamId == 0xC0)
  | _ => false

/-- What of the unit belongs into the cache. -/
def wanted (u : PsUnit) : List UInt8 := if u.recognised then u.payload else []

end PsUnit

/-! ## How the parser takes a unit -/

section

variable {s : Ps} {rest : List UInt8} {fuel : Nat}

theorem startsWith_cons (code c : UInt8) (p : List UInt8) :
    startsWith code (0 :: 0 :: 1 :: c :: p) = (c == code) := by
  simp [startsWith]

theorem startsWith_append (code c : UInt8) (p q : List UInt8) :
    startsWith code ([0, 0, 1, c] ++ p ++ q) = (c == code) := by
  simp [startsWith]

theorem ntohsAt_htons {n : Nat} (h : n < 65536) (a b c d : UInt8) (p : List UInt8) :
    ntohsAt (a :: b :: c :: d :: (htons n ++ p)) 4 = n := by
  simp only [ntohsAt, htons, List.cons_append, List.getD_cons_succ, List.getD_cons_zero,
    UInt8.toNat_ofNat']
  omega

/-- A pack header is skipped with its stuffing. -/
theorem psParseLoop_pack {clock stuffing : List UInt8} {last : UInt8} (hclock : clock.length = 9)
    (hstuffing : stuffing.length = (last &&& 7).toNat) :
    psParseLoop (fuel + 1) s ([0, 0, 1, 0xBA] ++ (clock ++ last :: stuffing) ++ rest) =
      psParseLoop fuel s rest := by
  have hp : [0, 0, 1, 0xBA] ++ (clock ++ last :: stuffing) ++ rest =
      0 :: 0 :: 1 :: 0xBA :: (clock ++ last :: (stuffing ++ rest)) := by simp
  have hlast : (0 :: 0 :: 1 :: 0xBA :: (clock ++ last :: (stuffing ++ rest))).getD 13 0 = last := by
    simp [List.getD_eq_getElem?_getD, hclock]
  have hdrop : (0 :: 0 :: 1 :: 0xBA :: (clock ++ last :: (stuffing ++ rest))).drop
      (14 + (last &&& 7).toNat) = rest := by
    rw [← hp, ← hstuffing]
    apply List.drop_left'
    simp [hclock]
    omega
  have hlen : 14 ≤ (0 :: 0 :: 1 :: 0xBA :: (clock ++ last :: (stuffing ++ rest))).length := by
    simp [hclock]
    omega
  rw [hp, psParseLoop, if_neg (List.cons_ne_nil _ _), if_neg (by omega), psIsHeader,
    startsWith_cons, if_pos (by decide), if_neg (by omega), hlast, hdrop]

/-- A system header and a stream map are skipped by their length. -/
theorem drop_section (a b c d : UInt8) {body : List UInt8} (hbody : body.length < 65536) :
    (a :: b :: c :: d :: (htons body.length ++ (body ++ rest))).drop
        (4 + 2 + ntohsAt (a :: b :: c :: d :: (htons body.length ++ (body ++ rest))) 4) = rest := by
  rw [ntohsAt_htons hbody]
  show ([a, b, c, d] ++ (htons body.length ++ (body ++ rest))).drop _ = rest
  rw [← List.append_assoc, ← List.append_assoc]
  apply List.drop_left'
  simp [htons]
  omega

theorem psParseLoop_system {body : List UInt8} (hbody : body.length < 65536) :
    psParseLoop (fuel + 1) s ([0, 0, 1, 0xBB] ++ (htons body.length ++ body) ++ rest) =
      psParseLoop fuel s rest := by
  have hp : [0, 0, 1, 0xBB] ++ (htons body.length ++ body) ++ rest =
      0 :: 0 :: 1 :: 0xBB :: (htons body.length ++ (body ++ rest)) := by simp
  have hlen : 6 ≤ (0 :: 0 :: 1 :: 0xBB :: (htons body.length ++ (body ++ rest))).length := by
    simp [htons]
  rw [hp, psParseLoop, if_neg (List.cons_ne_nil _ _), if_neg (by omega), psIsHeader, psIsShHeader,
    startsWith_cons, if_neg (by decide), startsWith_cons, if_pos (by decide), if_neg (by omega),
    drop_section _ _ _ _ hbody]

theorem psParseLoop_streamMap {body : List UInt8} (hbody : body.length < 65536) :
    psParseLoop (fuel + 1) s ([0, 0, 1, 0xBC] ++ (htons body.length ++ body) ++ rest) =
      psParseLoop fuel s rest := by
  have hp : [0, 0, 1, 0xBC] ++ (htons body.length ++ body) ++ rest =
      0 :: 0 :: 1 :: 0xBC :: (htons body.length ++ (body ++ rest)) := by simp
  have hlen : 6 ≤ (0 :: 0 :: 1 :: 0xBC :: (htons body.length ++ (body ++ rest))).length := by
    simp [htons]
  rw [hp, psParseLoop, if_neg (List.cons_ne_nil _ _), if_neg (by omega), psIsHeader, psIsShHeader,
    psIsPsmHeader, startsWith_cons, if_neg (by decide), startsWith_cons, if_neg (by decide),
    startsWith_cons, if_pos (by decide), if_neg (by omega), drop_section _ _ _ _ hbody]

/-- A unit that is neither a PES packet nor anything else unknown is skipped. -/
theorem psParseLoop_skip {u : PsUnit} (hrec : u.recognised = false) (hfor : u.foreign = false) :
    psParseLoop (fuel + 1) s (u.head ++ rest) = psParseLoop fuel s rest := by
  cases u with
  | pack clock last stuffing hclock hstuffing => exact psParseLoop_pack hclock hstuffing
  | system body hbody => exact psParseLoop_system hbody
  | streamMap body hbody => exact psParseLoop_streamMap hbody
  | pes streamId flags1 flags2 opes payload hid hopes hlen =>
    rw [PsUnit.foreign, show (streamId == 0xE0 || streamId == 0xC0) = false from hrec] at hfor
    cases hfor

/-- The parser in the payload of a PES packet. -/
def inPayload (s : Ps) : Ps := { s with videoFlag := true }

/-- The payload of a PES packet is written as far as it is there. -/
theorem onPes_head {streamId flags1 flags2 : UInt8} {opes payload : List UInt8}
    (hopes : opes.length < 256) (hlen : 3 + opes.length + payload.length < 65536) :
    onPes s ([0, 0, 1, streamId] ++ (htons (3 + opes.length + payload.length) ++
        (flags1 :: flags2 :: UInt8.ofNat opes.length :: opes)) ++ rest) =
      if payload.length ≤ rest.length then
        some ({ h264CacheWrite (inPayload s) (rest.take payload.length) with rawdataLength := 0 },
          rest.drop payload.length)
      else
        some ({ h264CacheWrite (inPayload s) rest with
          rawdataLength := payload.length - rest.length }, []) := by
  have hp : [0, 0, 1, streamId] ++ (htons (3 + opes.length + payload.length) ++
      (flags1 :: flags2 :: UInt8.ofNat opes.length :: opes)) ++ rest =
      0 :: 0 :: 1 :: streamId :: (htons (3 + opes.length + payload.length) ++
        (flags1 :: flags2 :: UInt8.ofNat opes.length :: (opes ++ rest))) := by simp
  have hopesLen : ((0 :: 0 :: 1 :: streamId :: (htons (3 + opes.length + payload.length) ++
      (flags1 :: flags2 :: UInt8.ofNat opes.length :: (opes ++ rest)))).getD 8 0).toNat =
      opes.length := by
    simp only [htons, List.cons_append, List.nil_append, List.getD_cons_succ, List.getD_cons_zero,
      UInt8.toNat_ofNat']
    omega
  have hdrop : (0 :: 0 :: 1 :: streamId :: (htons (3 + opes.length + payload.length) ++
      (flags1 :: flags2 :: UInt8.ofNat opes.length :: (opes ++ rest)))).drop (9 + opes.length) =
      rest := by
    rw [← hp]
    apply List.drop_left'
    simp [htons]
    omega
  have hsize : (0 :: 0 :: 1 :: streamId :: (htons (3 + opes.length + payload.length) ++
      (flags1 :: flags2 :: UInt8.ofNat opes.length :: (opes ++ rest)))).length =
      9 + opes.length + rest.length := by
    simp [htons]
    omega
  rw [hp, onPes]
  simp only [hopesLen, ntohsAt_htons hlen, hdrop, hsize]
  rw [if_neg (by omega), if_neg (by omega),
    show 3 + opes.length + payload.length - 3 - opes.length = payload.length by omega]
  rfl

theorem psParseLoop_recognised {u : PsUnit} (hrec : u.recognised = true) :
    psParseLoop (fuel + 1) s (u.head ++ rest) =
      if u.payload.length ≤ rest.length then
        psParseLoop fuel
          { h264CacheWrite (inPayload s) (rest.take u.payload.length) with rawdataLength := 0 }
          (rest.drop u.payload.length)
      else
        psParseLoop fuel
          { h264CacheWrite (inPayload s) rest with
            rawdataLength := u.payload.length - rest.length } [] := by
  cases u with
  | pack => cases hrec
  | system => cases hrec
  | streamMap => cases hrec
  | pes streamId flags1 flags2 opes payload hid hopes hlen =>
    have hid' : streamId = 0xE0 ∨ streamId = 0xC0 := by
      simpa [PsUnit.recognised] using hrec
    have hknown : ∀ code : UInt8, code ≠ 0xE0 → code ≠ 0xC0 → (streamId == code) = false := by
      rintro code h1 h2
      rcases hid' with rfl | rfl
      · exact beq_eq_false_iff_ne.mpr (Ne.symm h1)
      · exact beq_eq_false_iff_ne.mpr (Ne.symm h2)
    have hfour : ¬([0, 0, 1, streamId] ++ (htons (3 + opes.length + payload.length) ++
        (flags1 :: flags2 :: UInt8.ofNat opes.length :: opes)) ++ rest).length < 4 := by
      simp
    rw [PsUnit.head, PsUnit.payload, psParseLoop, if_neg (by simp), if_neg hfour, psIsHeader,
      startsWith_append, hknown _ (by decide) (by decide), psIsShHeader, startsWith_append,
      hknown _ (by decide) (by decide), psIsPsmHeader, startsWith_append,
      hknown _ (by decide) (by decide), psIsPesHeader, startsWith_append, startsWith_append,
      if_neg (by decide), if_neg (by decide), if_neg (by decide), if_pos (by simpa using hid'),
      onPes_head hopes hlen]
    by_cases hle : payload.length ≤ rest.length
    · simp only [if_pos hle]
    · simp only [if_neg hle]

/-- Bytes that begin with no start code the parser knows. -/
def unknown (p : List UInt8) : Bool :=
  !(psIsHeader p || psIsShHeader p || psIsPsmHeader p || psIsPesHeader p)

/-- They are taken for the rest of a PES packet, if one is expected. -/
theorem psParseLoop_unknown {p : List UInt8} (hlen : 4 ≤ p.length) (hp : unknown p = true) :
    psParseLoop (fuel + 1) s p =
      if s.videoFlag ∧ 0 < s.rawdataLength then
        if s.rawdataLength < p.length then
          psParseLoop fuel
            { h264CacheWrite s (p.take s.rawdataLength) with
              rawdataLength := 0, videoFlag := false }
            (p.drop s.rawdataLength)
        else some { h264CacheWrite s p with rawdataLength := s.rawdataLength - p.length }
      else some s := by
  have hne : p ≠ [] := by
    rintro rfl
    cases hlen
  rw [unknown, Bool.not_eq_true', Bool.or_eq_false_iff, Bool.or_eq_false_iff,
    Bool.or_eq_false_iff] at hp
  rw [psParseLoop, if_neg hne, if_neg (by omega), hp.1.1.1, hp.1.1.2, hp.1.2, hp.2]
  rfl

/-- A PES packet of another kind begins with an unknown start code. -/
theorem unknown_head {u : PsUnit} (hfor : u.foreign = true) (rest : List UInt8) :
    unknown (u.head ++ rest) = true ∧ 4 ≤ (u.head ++ rest).length := by
  cases u with
  | pack => cases hfor
  | system => cases hfor
  | streamMap => cases hfor
  | pes streamId flags1 flags2 opes payload hid hopes hlen =>
    have hne : ∀ code : UInt8, code < 0xBD → (streamId == code) = false := by
      intro code hlt
      apply beq_eq_false_iff_ne.mpr
      intro heq
      subst heq
      exact absurd hid (UInt8.not_le.mpr hlt)
    have hpes : (streamId == 0xE0 || streamId == 0xC0) = false := by
      simpa [PsUnit.foreign] using hfor
    refine ⟨?_, by simp [PsUnit.head]⟩
    rw [PsUnit.head, unknown, psIsHeader, psIsShHeader, psIsPsmHeader, psIsPesHeader,
      startsWith_append, startsWith_append, startsWith_append, startsWith_append,
      startsWith_append, hne _ (by decide), hne _ (by decide), hne _ (by decide), hpes]
    rfl

end

end ProgrammingPath.Gb28181
