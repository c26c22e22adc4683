import ProgrammingPath.Gb28181.Demux
import ProgrammingPath.Gb28181.PsAccess

/-!
# Audio in the H264 cache

`ps_is_pes_header` takes the packets with stream id `C0` as well as those with `E0`, so that their payload is
written like video. Here every byte of a stream keeps the unit it comes from, and the accesses of the parser
tell which bytes are written: those of the packets whose head it sees, as `Demux` has them.
-/

namespace ProgrammingPath.Gb28181

open ProgrammingPath.Lib

/-! ## The parser on bytes with tags -/

/-- What is written of a list that goes along with the bytes, when so many bytes of a PES packet are expected
in front of them and behind them. The fields that the parser uses are all there. -/
inductive Scans {τ : Type} : Nat → List UInt8 → List τ → List τ → Nat → Prop
  | done (left : Nat) (tags : List τ) : Scans left [] tags [] left
  | next {left left' : Nat} {p : List UInt8} {tags w : List τ} (hlen : 4 ≤ p.length)
    (hread : (kindOf p).Readable p)
    (hrest : Scans ((kindOf p).left left p) (p.drop ((kindOf p).skip left p))
      (tags.drop ((kindOf p).skip left p)) w left') :
    Scans left p tags ((kindOf p).written left p tags ++ w) left'

/-- The loop writes what the scan says. -/
theorem Scans.psLoop {τ : Type} {left left' : Nat} {p : List UInt8} {tags w : List τ}
    (h : Scans left p tags w left') {mem : Mem} {all : List τ} {fuel : Nat} {s : PsVars} {pdata : Int}
    (hp : p = remaining mem all.length pdata) (hs : left = s.expected)
    (htags : tags = all.drop pdata.toNat) (hk : 0 ≤ pdata)
    (hfuel : (all.length - pdata).toNat < fuel) :
    ∃ r, psLoop mem all.length fuel s pdata = some r ∧ r.1.flatMap (Access.written all) = w ∧
      r.2.expected = left' := by
  induction h generalizing fuel s pdata with
  | done left tags =>
    obtain ⟨fuel, rfl⟩ := Nat.exists_eq_add_of_le' (show 1 ≤ fuel by omega)
    have hlength : (remaining mem all.length pdata).length = (all.length - pdata).toNat :=
      length_remaining
    rw [← hp, List.length_nil] at hlength
    refine ⟨([], s), ?_, rfl, hs.symm⟩
    rw [Gb28181.psLoop, psTurn, if_pos (by omega)]
  | @next left left' p tags w hlen hread hrest ih =>
    obtain ⟨fuel, rfl⟩ := Nat.exists_eq_add_of_le' (show 1 ≤ fuel by omega)
    subst hp hs htags
    have hlength : (remaining mem all.length pdata).length = (all.length - pdata).toNat :=
      length_remaining
    have hspec := psTurn_spec (s := s) hk hlen
    have hwrites := hspec.writes hread rfl
    have hvars := hspec.vars hread
    rw [Gb28181.psLoop]
    rcases hspec.next hread with ⟨hnone, hplace⟩ | ⟨pdata', hsome, hlt, hplace⟩
    · -- the rest of the scan is empty
      have hnil : w = [] ∧ left' = (kindOf (remaining mem all.length pdata)).left s.expected
          (remaining mem all.length pdata) := by
        rw [drop_remaining, remaining_eq_nil hplace] at hrest
        cases hrest with
        | done => exact ⟨rfl, rfl⟩
        | next hlen => exact absurd hlen (by decide)
      rw [hnone, hnil.1, hnil.2, List.append_nil]
      exact ⟨_, rfl, hwrites, hvars⟩
    · have hdrop : (all.drop pdata.toNat).drop ((kindOf (remaining mem all.length pdata)).skip
          s.expected (remaining mem all.length pdata)) = all.drop pdata'.toNat := by
        rw [List.drop_drop, hplace.drop (Nat.le_refl _)]
        congr 1
        omega
      obtain ⟨r, hr, hw, hleft⟩ := ih (by rw [drop_remaining, hplace.remaining]) hvars.symm hdrop
        (by omega) (show _ < fuel by omega)
      rw [hsome]
      refine ⟨((psTurn mem all.length s pdata).accesses ++ r.1, r.2), ?_, ?_, hleft⟩
      · simp only [hr, Option.map_some]
      · rw [List.flatMap_append, hwrites, hw]

/-! ## Bytes and their units -/

/-- The head of a unit, or one byte of its payload. -/
inductive Piece
  | head (u : PsUnit)
  | byte (u : PsUnit) (b : UInt8)

namespace Piece

def unit : Piece → PsUnit
  | head u => u
  | byte u _ => u

def atom : Piece → Atom
  | head u => .head u
  | byte u b => .byte u.recognised b

end Piece

def PsUnit.pieces (u : PsUnit) : List Piece := .head u :: u.payload.map (.byte u)

/-- A packet with stream id `C0` to `DF`. -/
def PsUnit.audio : PsUnit → Bool
  | pes streamId _ _ _ _ _ _ _ => 0xC0 ≤ streamId ∧ streamId ≤ 0xDF
  | _ => false

def atomsOf (pieces : List Piece) : List Atom := pieces.map Piece.atom

/-- The units that the bytes come from, one by one. -/
def owners (pieces : List Piece) : List PsUnit :=
  pieces.flatMap fun piece => List.replicate piece.atom.bytes.length piece.unit

/-- The demultiplexer behind these parts of an RTP payload. -/
def Demux.along (d : Demux) (pieces : List Piece) : Demux := (atomsOf pieces).foldl atom d

/-- The units of the bytes that are followed. -/
def followed : Demux → List Piece → List PsUnit
  | _, [] => []
  | d, .head u :: pieces => followed (d.atom (.head u)) pieces
  | d, .byte u b :: pieces =>
    (if d.active then [u] else []) ++ followed (d.atom (.byte u.recognised b)) pieces

/-- An RTP payload in memory. -/
def payloadOf (pieces : List Piece) (mem : Mem) : Payload :=
  ⟨mem.write 0 (bytesOf (atomsOf pieces)), (bytesOf (atomsOf pieces)).length⟩

/-- The payloads are parsed one by one, and no byte of an audio packet is written. -/
def NoAudio : PsVars → List (List Piece × Mem) → Prop
  | _, [] => True
  | s, (pieces, mem) :: payloads =>
    ∃ r, psAccess s (payloadOf pieces mem) = some r ∧
      (∀ u ∈ r.1.flatMap (Access.written (owners pieces)), u.audio = false) ∧ NoAudio r.2 payloads

/-- What is left of a stream: the bytes of the packet in hand, and the units after it. -/
def tail (u : PsUnit) (cur : List UInt8) (units : List PsUnit) : List Piece :=
  cur.map (.byte u) ++ units.flatMap PsUnit.pieces

section

variable {u : PsUnit} {units : List PsUnit} {cur : List UInt8} {piece : Piece} {pieces more : List Piece}
  {d : Demux} {left : Nat} {rest : List UInt8} {bs : List UInt8}

theorem bytesOf_atomsOf_head : bytesOf (atomsOf (.head u :: pieces)) = u.head ++ bytesOf (atomsOf pieces) :=
  bytesOf_head u (atomsOf pieces)

theorem bytesOf_atomsOf_append (l m : List Piece) :
    bytesOf (atomsOf (l ++ m)) = bytesOf (atomsOf l) ++ bytesOf (atomsOf m) := by
  rw [atomsOf, List.map_append]
  exact bytesOf_append _ _

theorem bytesOf_atomsOf_bytes : bytesOf (atomsOf (bs.map (.byte u))) = bs := by
  rw [atomsOf, List.map_map]
  exact bytesOf_bytes u.recognised bs

theorem owners_head : owners (.head u :: pieces) = List.replicate u.head.length u ++ owners pieces :=
  rfl

theorem owners_append (l m : List Piece) : owners (l ++ m) = owners l ++ owners m :=
  List.flatMap_append

theorem owners_bytes : owners (bs.map (.byte u)) = List.replicate bs.length u := by
  induction bs with
  | nil => rfl
  | cons b bs ih =>
    show [u] ++ owners (bs.map (.byte u)) = _
    rw [ih]
    rfl

theorem length_owners (pieces : List Piece) : (owners pieces).length = (bytesOf (atomsOf pieces)).length := by
  induction pieces with
  | nil => rfl
  | cons piece pieces ih =>
    show (List.replicate piece.atom.bytes.length piece.unit ++ owners pieces).length =
      (piece.atom.bytes ++ bytesOf (atomsOf pieces)).length
    rw [List.length_append, List.length_append, ih, List.length_replicate]

theorem followed_append (l m : List Piece) :
    followed d (l ++ m) = followed d l ++ followed (d.along l) m := by
  induction l generalizing d with
  | nil => rfl
  | cons piece l ih =>
    cases piece with
    | head u => exact ih
    | byte u b =>
      show _ ++ followed _ (l ++ m) = (_ ++ followed _ l) ++ _
      rw [ih, List.append_assoc]
      rfl

theorem Demux.along_append (l m : List Piece) : d.along (l ++ m) = (d.along l).along m := by
  rw [along, along, along, atomsOf, List.map_append, List.foldl_append]
  rfl

theorem Demux.along_bytes (h : d.active = true) (u : PsUnit) (bs : List UInt8) :
    d.along (bs.map (.byte u)) = { d with out := d.out ++ bs } := by
  rw [along, atomsOf, List.map_map]
  exact foldl_bytes h u.recognised bs

/-- The bytes of a packet that is followed. -/
theorem followed_bytes (h : d.active = true) : followed d (bs.map (.byte u)) = List.replicate bs.length u := by
  induction bs generalizing d with
  | nil => rfl
  | cons b bs ih =>
    show (if d.active then [u] else []) ++ followed (d.atom (.byte u.recognised b)) (bs.map (.byte u)) = _
    rw [if_pos h, Demux.atom, if_pos h, ih (d := { d with out := d.out ++ [b] }) h]
    rfl

/-- Once the parser is blocked, nothing is followed. -/
theorem followed_blocked (hactive : d.active = false) (hblocked : d.blocked = true) (pieces : List Piece) :
    followed d pieces = [] := by
  induction pieces with
  | nil => rfl
  | cons piece pieces ih =>
    have hstep : d.atom piece.atom = d := Demux.foldl_blocked hactive hblocked [piece.atom]
    cases piece with
    | head u =>
      show followed (d.atom (.head u)) pieces = []
      rw [show d.atom (.head u) = d from hstep, ih]
    | byte u b =>
      show (if d.active then [u] else []) ++ followed (d.atom (.byte u.recognised b)) pieces = []
      rw [show d.atom (.byte u.recognised b) = d from hstep, ih, hactive]
      rfl

/-- What comes next: a byte of the packet in hand, or the head of the next unit. -/
theorem tail_cases (h : piece :: pieces = tail u cur units) :
    (∃ b cur', cur = b :: cur' ∧ piece = .byte u b ∧ pieces = tail u cur' units) ∨
      ∃ v units', cur = [] ∧ units = v :: units' ∧ piece = .head v ∧ pieces = tail v v.payload units' := by
  cases cur with
  | cons b cur =>
    rw [tail, List.map_cons, List.cons_append, List.cons.injEq] at h
    exact .inl ⟨b, cur, rfl, h.1, h.2⟩
  | nil =>
    cases units with
    | nil => cases h
    | cons v units =>
      rw [tail, List.map_nil, List.nil_append, List.flatMap_cons, PsUnit.pieces, List.cons_append,
        List.cons.injEq] at h
      exact .inr ⟨v, units, rfl, rfl, h.1, h.2⟩

theorem exists_tail (h : pieces ++ more = tail u cur units) : ∃ v cur' units', more = tail v cur' units' := by
  induction pieces generalizing cur u units with
  | nil => exact ⟨u, cur, units, h⟩
  | cons piece pieces ih =>
    rcases tail_cases h with ⟨_, _, _, _, h⟩ | ⟨_, _, _, _, _, h⟩
    · exact ih h
    · exact ih h

/-- A part of the stream ends inside the packet in hand, or has all of it. -/
theorem tail_split (h : pieces ++ more = tail u cur units) :
    (∃ cur₁ cur₂, cur = cur₁ ++ cur₂ ∧ cur₂ ≠ [] ∧ pieces = cur₁.map (.byte u) ∧
        more = tail u cur₂ units) ∨
      ∃ pieces', pieces = cur.map (.byte u) ++ pieces' ∧
        pieces' ++ more = units.flatMap PsUnit.pieces :=
  append_eq_map_append h

/-! ## How the scan takes a unit -/

theorem kindOf_unknown {p : List UInt8} (h : unknown p = true) : kindOf p = .unknown := by
  rw [unknown, Bool.not_eq_true', Bool.or_eq_false_iff, Bool.or_eq_false_iff, Bool.or_eq_false_iff] at h
  rw [kindOf, h.1.1.1, h.1.1.2, h.1.2, h.2]
  rfl

theorem kindOf_cons (c : UInt8) (p : List UInt8) :
    kindOf (0 :: 0 :: 1 :: c :: p) =
      if c = 0xBA then .pack else if c = 0xBB then .system else if c = 0xBC then .streamMap
      else if c = 0xE0 ∨ c = 0xC0 then .pes else .unknown := by
  unfold kindOf psIsHeader psIsShHeader psIsPsmHeader psIsPesHeader
  simp only [startsWith_cons, beq_iff_eq, Bool.or_eq_true]

/-- What the scan does with the bytes from the head of a unit on that is no PES packet. -/
theorem scans_skip (hrec : u.recognised = false) (hfor : u.foreign = false) {τ : Type} {tags w : List τ}
    {left' : Nat} (h : Scans left rest (tags.drop u.head.length) w left') :
    Scans left (u.head ++ rest) tags w left' := by
  obtain ⟨kind, hkind, hlen, hread, hwritten, hleft, hskip⟩ :
      ∃ kind, kindOf (u.head ++ rest) = kind ∧ 4 ≤ (u.head ++ rest).length ∧
        kind.Readable (u.head ++ rest) ∧ kind.written left (u.head ++ rest) tags = [] ∧
        kind.left left (u.head ++ rest) = left ∧ kind.skip left (u.head ++ rest) = u.head.length := by
    cases u with
    | pack clock last stuffing hclock hstuffing =>
      have hp : [0, 0, 1, 0xBA] ++ (clock ++ last :: stuffing) ++ rest =
          0 :: 0 :: 1 :: 0xBA :: (clock ++ last :: (stuffing ++ rest)) := by simp
      have hlast : (0 :: 0 :: 1 :: 0xBA :: (clock ++ last :: (stuffing ++ rest))).getD 13 0 = last := by
        simp [List.getD_eq_getElem?_getD, hclock]
      refine ⟨.pack, ?_, ?_, ?_, rfl, rfl, ?_⟩
      · rw [PsUnit.head, hp, kindOf_cons, if_pos rfl]
      · simp [PsUnit.head]
      · show 14 ≤ _
        simp [PsUnit.head, hclock]
        omega
      · show 14 + _ = _
        rw [PsUnit.head, hp, hlast]
        simp [hclock, hstuffing]
        omega
    | system body hbody =>
      have hp : [0, 0, 1, 0xBB] ++ (htons body.length ++ body) ++ rest =
          0 :: 0 :: 1 :: 0xBB :: (htons body.length ++ (body ++ rest)) := by simp
      refine ⟨.system, ?_, ?_, ?_, rfl, rfl, ?_⟩
      · rw [PsUnit.head, hp, kindOf_cons, if_neg (by decide), if_pos rfl]
      · simp [PsUnit.head]
      · show 6 ≤ _
        simp [PsUnit.head, htons]
      · show 6 + _ = _
        rw [PsUnit.head, hp, ntohsAt_htons hbody]
        simp [htons]
        omega
    | streamMap body hbody =>
      have hp : [0, 0, 1, 0xBC] ++ (htons body.length ++ body) ++ rest =
          0 :: 0 :: 1 :: 0xBC :: (htons body.length ++ (body ++ rest)) := by simp
      refine ⟨.streamMap, ?_, ?_, ?_, rfl, rfl, ?_⟩
      · rw [PsUnit.head, hp, kindOf_cons, if_neg (by decide), if_neg (by decide), if_pos rfl]
      · simp [PsUnit.head]
      · show 6 ≤ _
        simp [PsUnit.head, htons]
      · show 6 + _ = _
        rw [PsUnit.head, hp, ntohsAt_htons hbody]
        simp [htons]
        omega
    | pes streamId flags1 flags2 opes payload hid hopes hlen =>
      rw [PsUnit.recognised] at hrec
      rw [PsUnit.foreign, hrec] at hfor
      cases hfor
  have hscan : Scans left (u.head ++ rest) tags
      ((kindOf (u.head ++ rest)).written left (u.head ++ rest) tags ++ w) left' := by
    refine .next hlen (hkind ▸ hread) ?_
    rw [hkind, hleft, hskip, List.drop_left]
    exact h
  rw [hkind, hwritten] at hscan
  exact hscan

/-- The payload of a packet that is known is written as far as it is there. -/
theorem scans_recognised (hrec : u.recognised = true) {τ : Type} {tags w : List τ} {left' : Nat}
    (h : Scans (u.payload.length - rest.length) (rest.drop u.payload.length)
      ((tags.drop u.head.length).drop u.payload.length) w left') :
    Scans left (u.head ++ rest) tags ((tags.drop u.head.length).take u.payload.length ++ w) left' := by
  cases u with
  | pack => cases hrec
  | system => cases hrec
  | streamMap => cases hrec
  | pes streamId flags1 flags2 opes payload hid hopes hlen =>
    have hid' : streamId = 0xE0 ∨ streamId = 0xC0 := by
      simpa [PsUnit.recognised] using hrec
    have hp : [0, 0, 1, streamId] ++ (htons (3 + opes.length + payload.length) ++
        (flags1 :: flags2 :: UInt8.ofNat opes.length :: opes)) ++ rest =
        0 :: 0 :: 1 :: streamId :: (htons (3 + opes.length + payload.length) ++
          (flags1 :: flags2 :: UInt8.ofNat opes.length :: (opes ++ rest))) := by simp
    have hhead : (PsUnit.pes streamId flags1 flags2 opes payload hid hopes hlen).head.length =
        9 + opes.length := by
      simp [PsUnit.head, htons]
      omega
    have hkind : kindOf ((PsUnit.pes streamId flags1 flags2 opes payload hid hopes hlen).head ++ rest) =
        .pes := by
      rw [PsUnit.head, hp, kindOf_cons]
      rcases hid' with rfl | rfl <;> decide
    have hopesLen : (((PsUnit.pes streamId flags1 flags2 opes payload hid hopes hlen).head ++ rest).getD
        8 0).toNat = opes.length := by
      rw [PsUnit.head, hp]
      simp only [htons, List.cons_append, List.nil_append, List.getD_cons_succ, List.getD_cons_zero,
        UInt8.toNat_ofNat']
      omega
    have hsize : ntohsAt ((PsUnit.pes streamId flags1 flags2 opes payload hid hopes hlen).head ++ rest) 4 =
        3 + opes.length + payload.length := by
      rw [PsUnit.head, hp, ntohsAt_htons hlen]
    have hskip : Kind.pes.skip left
        ((PsUnit.pes streamId flags1 flags2 opes payload hid hopes hlen).head ++ rest) =
          (9 + opes.length) + payload.length := by
      rw [Kind.skip, hsize]
      omega
    have hleft : Kind.pes.left left
        ((PsUnit.pes streamId flags1 flags2 opes payload hid hopes hlen).head ++ rest) =
          payload.length - rest.length := by
      rw [Kind.left, hsize, List.length_append, hhead]
      omega
    have hwritten : Kind.pes.written left
        ((PsUnit.pes streamId flags1 flags2 opes payload hid hopes hlen).head ++ rest) tags =
          (tags.drop (9 + opes.length)).take payload.length := by
      rw [Kind.written, hsize, hopesLen]
      congr 1
      omega
    rw [PsUnit.payload, hhead] at h ⊢
    have hscan : Scans left ((PsUnit.pes streamId flags1 flags2 opes payload hid hopes hlen).head ++ rest)
        tags ((kindOf ((PsUnit.pes streamId flags1 flags2 opes payload hid hopes hlen).head ++ rest)).written
          left ((PsUnit.pes streamId flags1 flags2 opes payload hid hopes hlen).head ++ rest) tags ++ w)
        left' := by
      refine .next ?_ ?_ ?_
      · rw [List.length_append, hhead]
        omega
      · rw [hkind, Kind.Readable, hopesLen, hsize, List.length_append, hhead]
        omega
      · rw [hkind, hleft, hskip, ← hhead, List.drop_length_add_append, hhead, ← List.drop_drop]
        exact h
    rw [hkind, hwritten] at hscan
    exact hscan

/-- Nothing behind bytes that nobody expects is looked at. -/
theorem scans_unknown {p : List UInt8} (hlen : 4 ≤ p.length) (hunknown : unknown p = true) {τ : Type}
    (tags : List τ) : Scans 0 p tags [] 0 := by
  have hkind := kindOf_unknown hunknown
  have hscan : Scans 0 p tags ((kindOf p).written 0 p tags ++ []) 0 := by
    refine .next hlen (by rw [hkind]; trivial) ?_
    rw [hkind, Kind.left, Kind.skip, if_neg (Nat.lt_irrefl 0), List.drop_length, Nat.zero_sub]
    exact .done 0 _
  rw [hkind, Kind.written, List.take_zero, List.append_nil] at hscan
  exact hscan

/-- The rest of a packet is written as far as it is there. -/
theorem scans_rest {p : List UInt8} (hlen : 4 ≤ p.length) (hunknown : unknown p = true) (hpos : 0 < left)
    {τ : Type} {tags w : List τ} {left' : Nat}
    (h : Scans (left - p.length) (p.drop left) (tags.drop left) w left') :
    Scans left p tags (tags.take left ++ w) left' := by
  have hkind := kindOf_unknown hunknown
  have hscan : Scans left p tags ((kindOf p).written left p tags ++ w) left' := by
    refine .next hlen (by rw [hkind]; trivial) ?_
    rw [hkind, Kind.left, Kind.skip, if_pos hpos]
    exact h
  rw [hkind] at hscan
  exact hscan

/-! ## The scan follows -/

/-- How many bytes the parser expects of a packet of which these are left. -/
def expects (d : Demux) (cur : List UInt8) : Nat := if d.active then cur.length else 0

/-- At the end of an RTP payload. -/
theorem scans_nil (h : [] ++ more = units.flatMap PsUnit.pieces) :
    ∃ v cur units', more = tail v cur units' ∧
      Scans 0 (bytesOf (atomsOf [])) (owners []) (followed d []) (expects (d.along []) cur) := by
  refine ⟨.system [] (by decide), [], units, h, ?_⟩
  rw [expects, List.length_nil, ite_self]
  exact .done 0 _

/-- The scan of a packet that is followed, to the end of the RTP payload or of the packet. -/
theorem scans_followed (hactive : d.active = true) (h : pieces ++ more = tail u cur units)
    {scan : List PsUnit → Nat → Prop}
    (hscan : ∀ {w : List PsUnit} {left' : Nat},
      Scans (cur.length - (bytesOf (atomsOf pieces)).length) ((bytesOf (atomsOf pieces)).drop cur.length)
        ((owners pieces).drop cur.length) w left' → scan ((owners pieces).take cur.length ++ w) left')
    (hnext : ∀ {pieces' : List Piece}, pieces' ++ more = units.flatMap PsUnit.pieces →
      pieces'.length ≤ pieces.length → ∃ v cur' units', more = tail v cur' units' ∧
        Scans 0 (bytesOf (atomsOf pieces')) (owners pieces')
          (followed { d with out := d.out ++ cur } pieces')
          (expects (Demux.along { d with out := d.out ++ cur } pieces') cur')) :
    ∃ v cur' units', more = tail v cur' units' ∧
      scan (followed d pieces) (expects (d.along pieces) cur') := by
  rcases tail_split h with ⟨cur₁, cur₂, rfl, hne, rfl, hmore⟩ | ⟨pieces', rfl, hmore⟩
  · -- the RTP payload ends inside the packet
    refine ⟨u, cur₂, units, hmore, ?_⟩
    rw [bytesOf_atomsOf_bytes, owners_bytes, List.length_append, Nat.add_sub_cancel_left,
      List.drop_eq_nil_of_le (Nat.le_add_right _ _), List.drop_eq_nil_of_le, List.take_of_length_le]
      at hscan
    · have hrest := hscan (.done cur₂.length [])
      rw [List.append_nil] at hrest
      rw [followed_bytes hactive, Demux.along_bytes hactive, expects]
      rw [if_pos (show ({ d with out := d.out ++ cur₁ } : Demux).active = true from hactive)]
      exact hrest
    · rw [List.length_replicate]
      exact Nat.le_add_right _ _
    · rw [List.length_replicate]
      exact Nat.le_add_right _ _
  · -- it goes on behind it
    obtain ⟨v, cur', units', htl, hrest⟩ := hnext hmore (by rw [List.length_append]; omega)
    refine ⟨v, cur', units', htl, ?_⟩
    rw [bytesOf_atomsOf_append, bytesOf_atomsOf_bytes, owners_append, owners_bytes, List.length_append,
      List.drop_left, List.drop_left' List.length_replicate, List.take_left' List.length_replicate,
      Nat.sub_eq_zero_of_le (Nat.le_add_right _ _)] at hscan
    rw [followed_append, followed_bytes hactive, Demux.along_append, Demux.along_bytes hactive]
    exact hscan hrest

/-- The scan from the head of a unit to the end of the RTP payload. -/
theorem scans_heads (h : pieces ++ more = units.flatMap PsUnit.pieces) (hblocked : d.blocked = false)
    {n : Nat} (hn : pieces.length ≤ n) :
    ∃ v cur units', more = tail v cur units' ∧
      Scans 0 (bytesOf (atomsOf pieces)) (owners pieces) (followed d pieces) (expects (d.along pieces) cur) := by
  induction n generalizing pieces units d with
  | zero =>
    obtain rfl := List.eq_nil_of_length_eq_zero (Nat.le_zero.mp hn)
    exact scans_nil h
  | succ n ih =>
    cases pieces with
    | nil => exact scans_nil h
    | cons piece pieces =>
      have htail : piece :: (pieces ++ more) = tail (.system [] (by decide)) [] units := h
      obtain ⟨_, _, hcur, _⟩ | ⟨u, units', -, rfl, rfl, hnext⟩ := tail_cases htail
      · cases hcur
      rw [List.length_cons, Nat.add_le_add_iff_right] at hn
      rw [bytesOf_atomsOf_head, owners_head]
      show ∃ v cur units', _ ∧ Scans 0 _ _ (followed (d.atom (.head u)) pieces)
        (expects ((d.atom (.head u)).along pieces) cur)
      have hdrop : (List.replicate u.head.length u ++ owners pieces).drop u.head.length =
          owners pieces := List.drop_left' List.length_replicate
      by_cases hrec : u.recognised = true
      · have hatom : d.atom (.head u) = { d with active := true } := by
          rw [Demux.atom, if_pos hrec, hblocked]
          rfl
        rw [hatom]
        refine scans_followed (d := { d with active := true }) rfl hnext (fun hrest => ?_)
          fun hmore hle => ih hmore hblocked (Nat.le_trans hle hn)
        rw [← hdrop] at hrest
        have hall : Scans 0 _ _ _ _ := scans_recognised hrec hrest
        rw [hdrop] at hall
        exact hall
      · rw [Bool.not_eq_true] at hrec
        by_cases hfor : u.foreign = true
        · -- nothing behind a packet of another kind is looked at
          have hatom : d.atom (.head u) = { d with active := false, blocked := true } := by
            rw [Demux.atom, hrec, if_neg Bool.false_ne_true, if_pos hfor]
          obtain ⟨hunknown, hlen⟩ := unknown_head hfor (bytesOf (atomsOf pieces))
          obtain ⟨v, cur, units'', htl⟩ := exists_tail hnext
          refine ⟨v, cur, units'', htl, ?_⟩
          rw [hatom, followed_blocked rfl rfl, Demux.along, Demux.foldl_blocked rfl rfl]
          exact scans_unknown hlen hunknown _
        · rw [Bool.not_eq_true] at hfor
          have hatom : d.atom (.head u) = d := by
            rw [Demux.atom, hrec, hfor, if_neg Bool.false_ne_true, if_neg Bool.false_ne_true]
          rw [hatom]
          have hpay : u.payload = [] := PsUnit.payload_eq_nil hrec hfor
          rw [hpay] at hnext
          obtain ⟨v, cur, units'', htl, hscan⟩ := ih hnext hblocked hn
          refine ⟨v, cur, units'', htl, scans_skip hrec hfor ?_⟩
          rw [hdrop]
          exact hscan

/-- The scan of an RTP payload. One that goes on with a PES packet has at least four bytes and does not begin
with a start code. -/
theorem scans_payload (h : pieces ++ more = tail u cur units)
    (hcont : continues (atomsOf pieces) = true →
      4 ≤ (bytesOf (atomsOf pieces)).length ∧ unknown (bytesOf (atomsOf pieces)) = true) :
    ∃ v cur' units', more = tail v cur' units' ∧
      Scans (expects d cur) (bytesOf (atomsOf pieces)) (owners pieces)
        (followed { d with blocked := false } pieces) (expects (d.payload (atomsOf pieces)) cur') := by
  cases cur with
  | nil =>
    rw [expects, List.length_nil, ite_self]
    exact scans_heads (d := { d with blocked := false }) h rfl (Nat.le_refl _)
  | cons b cur =>
    cases pieces with
    | nil => exact ⟨u, b :: cur, units, h, .done _ _⟩
    | cons piece pieces =>
      obtain ⟨_, _, hcur, rfl, hnext⟩ | ⟨_, _, hcur, _⟩ := tail_cases h
      · cases hcur
        obtain ⟨hlen, hunknown⟩ := hcont rfl
        by_cases hactive : d.active = true
        · rw [expects, if_pos hactive]
          exact scans_followed (d := { d with blocked := false }) hactive h
            (fun hrest => scans_rest hlen hunknown (Nat.succ_pos _) hrest)
            fun hmore _ => scans_heads (d := { d with blocked := false, out := d.out ++ b :: cur }) hmore
              rfl (Nat.le_refl _)
        · rw [Bool.not_eq_true] at hactive
          obtain ⟨v, cur', units', htl⟩ := exists_tail hnext
          refine ⟨v, cur', units', htl, ?_⟩
          have hidle : ({ d with blocked := false } : Demux).active = false := hactive
          have hatom : Demux.atom { d with blocked := false } (.byte u.recognised b) =
              { d with blocked := true } := by
            rw [Demux.atom, hidle, if_neg Bool.false_ne_true]
          have hfollowed : followed { d with blocked := false } (.byte u b :: pieces) = [] := by
            rw [followed, hatom, followed_blocked (d := { d with blocked := true }) hactive rfl,
              if_neg (by rw [hidle]; exact Bool.false_ne_true)]
            rfl
          have hafter : d.payload (atomsOf (.byte u b :: pieces)) = { d with blocked := true } := by
            show ((atomsOf pieces).foldl Demux.atom
              (Demux.atom { d with blocked := false } (.byte u.recognised b))) = _
            rw [hatom, Demux.foldl_blocked (d := { d with blocked := true }) hactive rfl]
          have hexpects (cur : List UInt8) : expects d cur = 0 ∧
              expects { d with blocked := true } cur = 0 :=
            ⟨if_neg (by rw [hactive]; exact Bool.false_ne_true),
              if_neg (by rw [show ({ d with blocked := true } : Demux).active = false from hactive]; exact Bool.false_ne_true)⟩
          rw [hfollowed, hafter, (hexpects _).1, (hexpects _).2]
          exact scans_unknown hlen hunknown _
      · cases hcur

/-- What the parser writes of an RTP payload: the bytes of the packets that are followed. -/
theorem psAccess_followed {s : PsVars} (h : pieces ++ more = tail u cur units)
    (hcont : continues (atomsOf pieces) = true →
      4 ≤ (bytesOf (atomsOf pieces)).length ∧ unknown (bytesOf (atomsOf pieces)) = true)
    (hs : s.expected = expects d cur) (mem : Mem) :
    ∃ v cur' units' r, more = tail v cur' units' ∧ psAccess s (payloadOf pieces mem) = some r ∧
      r.1.flatMap (Access.written (owners pieces)) = followed { d with blocked := false } pieces ∧
      r.2.expected = expects (d.payload (atomsOf pieces)) cur' := by
  obtain ⟨v, cur', units', htl, hscan⟩ := scans_payload (d := d) h hcont
  have hbytes : bytesOf (atomsOf pieces) = remaining (payloadOf pieces mem).mem (owners pieces).length 0 := by
    rw [remaining, length_owners, Int.sub_zero, Int.toNat_natCast]
    exact (Mem.bytes_write_self mem).symm
  obtain ⟨r, hr, hw, hleft⟩ := hscan.psLoop hbytes hs.symm (List.drop_zero).symm (Int.le_refl 0)
    (show _ < (owners pieces).length + 1 by omega)
  refine ⟨v, cur', units', r, htl, ?_, hw, hleft⟩
  rw [psAccess, show (payloadOf pieces mem).size = (owners pieces).length from (length_owners pieces).symm]
  exact hr

/-! ## Whole streams -/

/-- No byte of an audio packet is followed. -/
def FollowsNoAudio : Demux → List (List Piece) → Prop
  | _, [] => True
  | d, pieces :: payloads =>
    (∀ u ∈ followed { d with blocked := false } pieces, u.audio = false) ∧
      FollowsNoAudio (d.payload (atomsOf pieces)) payloads

theorem noAudio_iff_follows {s : PsVars} {payloads : List (List Piece × Mem)}
    (h : (payloads.map Prod.fst).flatten = tail u cur units)
    (hcont : ∀ payload ∈ payloads, continues (atomsOf payload.1) = true →
      4 ≤ (bytesOf (atomsOf payload.1)).length ∧ unknown (bytesOf (atomsOf payload.1)) = true)
    (hs : s.expected = expects d cur) :
    NoAudio s payloads ↔ FollowsNoAudio d (payloads.map Prod.fst) := by
  induction payloads generalizing s d u cur units with
  | nil => exact Iff.rfl
  | cons payload payloads ih =>
    obtain ⟨pieces, mem⟩ := payload
    rw [List.map_cons, List.flatten_cons] at h
    rw [List.forall_mem_cons] at hcont
    obtain ⟨v, cur', units', r, htl, hr, hw, hleft⟩ := psAccess_followed (d := d) h hcont.1 hs mem
    rw [NoAudio, List.map_cons, FollowsNoAudio, ← ih htl hcont.2 hleft, ← hw]
    constructor
    · rintro ⟨r', hr', hall, hrest⟩
      rw [hr, Option.some.injEq] at hr'
      subst hr'
      exact ⟨hall, hrest⟩
    · exact fun ⟨hall, hrest⟩ => ⟨r, hr, hall, hrest⟩

end

/-! ## Which packets are followed -/

/-- The known packets with a payload whose head the parser sees: nothing that it does not follow stands in
front of it in the RTP payload. -/
def opened : Demux → List Piece → List PsUnit
  | _, [] => []
  | d, .head u :: pieces =>
    (if u.recognised = true ∧ u.payload ≠ [] ∧ d.blocked = false then [u] else []) ++
      opened (d.atom (.head u)) pieces
  | d, .byte u b :: pieces => opened (d.atom (.byte u.recognised b)) pieces

/-- No audio packet is opened. -/
def OpensNoAudio : Demux → List (List Piece) → Prop
  | _, [] => True
  | d, pieces :: payloads =>
    (∀ u ∈ opened { d with blocked := false } pieces, u.audio = false) ∧
      OpensNoAudio (d.payload (atomsOf pieces)) payloads

section

variable {u : PsUnit} {units : List PsUnit} {cur : List UInt8} {pieces more : List Piece} {d : Demux}
  {payloads : List (List Piece)}

/-- The packet in hand, if it is followed, is no audio packet. -/
def HandNoAudio (d : Demux) (u : PsUnit) (cur : List UInt8) : Prop :=
  d.active = true → cur ≠ [] → u.audio = false

/-- Behind the head of a unit that is not opened nothing of it is followed. -/
theorem handNoAudio_head (hopened : ∀ v ∈ opened d (.head u :: pieces), v.audio = false) :
    HandNoAudio (d.atom (.head u)) u u.payload := by
  intro hactive hne
  apply hopened
  rw [opened]
  apply List.mem_append_left
  by_cases hrec : u.recognised = true
  · have hblocked : d.blocked = false := by
      rw [Demux.atom, if_pos hrec] at hactive
      simpa using hactive
    rw [if_pos ⟨hrec, hne, hblocked⟩]
    exact List.mem_singleton_self u
  · rw [Bool.not_eq_true] at hrec
    by_cases hfor : u.foreign = true
    · rw [Demux.atom, hrec, if_neg Bool.false_ne_true, if_pos hfor] at hactive
      cases hactive
    · rw [Bool.not_eq_true] at hfor
      exact absurd (PsUnit.payload_eq_nil hrec hfor) hne

/-- A byte changes nothing about which packet is followed. -/
theorem active_byte (r : Bool) (b : UInt8) : (d.atom (.byte r b)).active = d.active := by
  rw [Demux.atom]
  split
  · rfl
  · rfl

/-- Where no audio packet is opened, none is followed. -/
theorem followed_of_opened (h : pieces ++ more = tail u cur units) (hhand : HandNoAudio d u cur)
    (hopened : ∀ v ∈ opened d pieces, v.audio = false) :
    (∀ v ∈ followed d pieces, v.audio = false) ∧
      ∃ v cur' units', more = tail v cur' units' ∧ HandNoAudio (d.along pieces) v cur' := by
  induction pieces generalizing d u cur units with
  | nil => exact ⟨fun _ hv => absurd hv List.not_mem_nil, u, cur, units, h, hhand⟩
  | cons piece pieces ih =>
    obtain ⟨b, cur', rfl, rfl, hnext⟩ | ⟨v, units', rfl, rfl, rfl, hnext⟩ := tail_cases h
    · have hhand' : HandNoAudio (d.atom (.byte u.recognised b)) u cur' := fun hactive _ =>
        hhand (active_byte u.recognised b ▸ hactive) (List.cons_ne_nil _ _)
      obtain ⟨hrest, hlast⟩ := ih hnext hhand' hopened
      refine ⟨fun v hv => ?_, hlast⟩
      rcases List.mem_append.mp hv with hv | hv
      · by_cases hactive : d.active = true
        · rw [if_pos hactive, List.mem_singleton] at hv
          rw [hv]
          exact hhand hactive (List.cons_ne_nil _ _)
        · rw [if_neg hactive] at hv
          cases hv
      · exact hrest v hv
    · exact ih hnext (handNoAudio_head hopened) fun w hw => hopened w (List.mem_append_right _ hw)

/-- A packet in hand that is followed goes on sooner or later. -/
theorem FollowsNoAudio.hand (h : FollowsNoAudio d payloads) (hflat : payloads.flatten = tail u cur units) :
    HandNoAudio d u cur := by
  induction payloads generalizing d with
  | nil =>
    intro _ hne
    cases cur with
    | nil => exact absurd rfl hne
    | cons b cur => cases hflat
  | cons pieces payloads ih =>
    intro hactive hne
    cases pieces with
    | nil => exact ih h.2 hflat hactive hne
    | cons piece pieces =>
      obtain ⟨b, cur', rfl, rfl, hnext⟩ | ⟨v, units', rfl, _⟩ := tail_cases hflat
      · apply h.1
        rw [followed, if_pos hactive]
        exact List.mem_append_left _ (List.mem_singleton_self u)
      · exact absurd rfl hne

/-- Where no audio packet is followed, none is opened. -/
theorem opened_of_followed (h : pieces ++ payloads.flatten = tail u cur units)
    (hfollowed : ∀ v ∈ followed d pieces, v.audio = false)
    (hlater : FollowsNoAudio (d.along pieces) payloads) : ∀ v ∈ opened d pieces, v.audio = false := by
  induction pieces generalizing d u cur units with
  | nil => exact fun _ hv => absurd hv List.not_mem_nil
  | cons piece pieces ih =>
    obtain ⟨b, cur', rfl, rfl, hnext⟩ | ⟨v, units', rfl, rfl, rfl, hnext⟩ := tail_cases h
    · exact ih hnext (fun w hw => hfollowed w (List.mem_append_right _ hw)) hlater
    · intro w hw
      rcases List.mem_append.mp hw with hw | hw
      · split at hw
        · next hopen =>
          rw [List.mem_singleton] at hw
          subst hw
          have hactive : (d.atom (.head w)).active = true := by
            rw [Demux.atom, if_pos hopen.1, hopen.2.2]
            rfl
          -- its first byte comes in this RTP payload or in a later one
          cases pieces with
          | nil => exact hlater.hand hnext hactive hopen.2.1
          | cons piece pieces =>
            obtain ⟨b, cur', hpay, rfl, -⟩ | ⟨_, _, hpay, _⟩ := tail_cases hnext
            · apply hfollowed
              show w ∈ (if (d.atom (.head w)).active then [w] else []) ++ _
              rw [if_pos hactive]
              exact List.mem_append_left _ (List.mem_singleton_self w)
            · exact absurd hpay hopen.2.1
        · cases hw
      · exact ih hnext hfollowed hlater w hw

theorem followsNoAudio_iff_opens (hflat : payloads.flatten = tail u cur units) (hhand : HandNoAudio d u cur) :
    FollowsNoAudio d payloads ↔ OpensNoAudio d payloads := by
  induction payloads generalizing d u cur units with
  | nil => exact Iff.rfl
  | cons pieces payloads ih =>
    rw [List.flatten_cons] at hflat
    constructor
    · rintro ⟨hfollowed, hlater⟩
      have hopened := opened_of_followed (d := { d with blocked := false }) hflat hfollowed hlater
      obtain ⟨-, v, cur', units', htl, hhand'⟩ :=
        followed_of_opened (d := { d with blocked := false }) hflat hhand hopened
      exact ⟨hopened, (ih htl hhand').mp hlater⟩
    · rintro ⟨hopened, hlater⟩
      obtain ⟨hfollowed, v, cur', units', htl, hhand'⟩ :=
        followed_of_opened (d := { d with blocked := false }) hflat hhand hopened
      exact ⟨hfollowed, (ih htl hhand').mpr hlater⟩

end

/-- **When no audio reaches the cache.** In a stream whose RTP payloads do not go on with a PES packet in less
than four bytes, or with a start code, no byte of an audio packet is written exactly when no audio packet with
a payload is opened. -/
theorem noAudio_iff {units : List PsUnit} {payloads : List (List Piece × Mem)}
    (hwhole : (payloads.map Prod.fst).flatten = units.flatMap PsUnit.pieces)
    (hapart : ∀ payload ∈ payloads, continues (atomsOf payload.1) = true →
      4 ≤ (bytesOf (atomsOf payload.1)).length ∧ unknown (bytesOf (atomsOf payload.1)) = true) :
    NoAudio .init payloads ↔ OpensNoAudio .init (payloads.map Prod.fst) := by
  have htail : (payloads.map Prod.fst).flatten = tail (.system [] (by decide)) [] units := hwhole
  rw [noAudio_iff_follows htail hapart (d := .init) rfl]
  exact followsNoAudio_iff_opens htail fun hactive => absurd hactive Bool.false_ne_true

theorem le_videoId : (0xBD : UInt8) ≤ 0xE0 := by decide

theorem le_audioId : (0xBD : UInt8) ≤ 0xC0 := by decide

theorem le_otherAudioId : (0xBD : UInt8) ≤ 0xC1 := by decide

theorem shortOpes : ([] : List UInt8).length < 256 := by decide

theorem shortPes : 3 + ([] : List UInt8).length + [(1 : UInt8), 2, 3, 4, 5, 6].length < 65536 := by decide

/-- A packet of six bytes with this stream id. -/
def sixBytes (streamId : UInt8) (hid : 0xBD ≤ streamId) : PsUnit :=
  .pes streamId 0x80 0 [] [1, 2, 3, 4, 5, 6] hid shortOpes shortPes

/-- A video packet that goes on in a second RTP payload, with an audio packet behind it that the parser does
not know. -/
theorem noAudio_unknownAudio :
    NoAudio .init [((sixBytes 0xE0 le_videoId).pieces.take 3, Mem.zero),
      ((sixBytes 0xE0 le_videoId).pieces.drop 3 ++ (sixBytes 0xC1 le_otherAudioId).pieces, Mem.zero)] := by
  have hwhole : ([((sixBytes 0xE0 le_videoId).pieces.take 3, Mem.zero),
      ((sixBytes 0xE0 le_videoId).pieces.drop 3 ++ (sixBytes 0xC1 le_otherAudioId).pieces,
        Mem.zero)].map Prod.fst).flatten =
      [sixBytes 0xE0 le_videoId, sixBytes 0xC1 le_otherAudioId].flatMap PsUnit.pieces := rfl
  refine (noAudio_iff hwhole ?_).mpr ?_
  · decide +kernel
  · refine ⟨?_, ?_, trivial⟩
    · decide +kernel
    · decide +kernel

/-- An audio packet with stream id `C0` in one RTP payload. -/
theorem not_noAudio_known : ¬∀ (units : List PsUnit) (payloads : List (List Piece × Mem)),
    (payloads.map Prod.fst).flatten = units.flatMap PsUnit.pieces → NoAudio .init payloads := by
  intro hall
  obtain ⟨r, hr, hnone, -⟩ := hall [sixBytes 0xC0 le_audioId] [((sixBytes 0xC0 le_audioId).pieces, Mem.zero)]
    rfl
  have hwritten : (psAccess .init (payloadOf (sixBytes 0xC0 le_audioId).pieces Mem.zero)).map (fun r =>
      (r.1.flatMap (Access.written (owners (sixBytes 0xC0 le_audioId).pieces))).any PsUnit.audio) =
        some true := by decide +kernel
  rw [hr, Option.map_some, Option.some.injEq, List.any_eq_true] at hwritten
  obtain ⟨u, hu, haudio⟩ := hwritten
  rw [hnone u hu] at haudio
  cases haudio

end ProgrammingPath.Gb28181
