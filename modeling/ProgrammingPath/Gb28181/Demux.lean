import ProgrammingPath.Gb28181.PsParse

/-!
# What arrives in the H264 cache

A program stream is cut into RTP payloads between its atoms: the head of a unit, which is never cut,
and the single bytes of a PES payload. `Demux` says in these terms what the parser does. It writes the
PES packets whose head it sees, and it stops seeing anything in an RTP payload as soon as a part of a
PES packet of another kind comes along. So a stream arrives complete exactly when no RTP payload has
the head of a recognised PES packet behind a part of another one (`clear`).
-/

namespace ProgrammingPath.Gb28181

/-! ## Atoms -/

inductive Atom
  | head (u : PsUnit)
  | byte (recognised : Bool) (b : UInt8)

namespace Atom

def bytes : Atom → List UInt8
  | head u => u.head
  | byte _ b => [b]

/-- A part of a PES packet that the parser does not know. -/
def foreign : Atom → Bool
  | head u => u.foreign
  | byte recognised _ => !recognised

/-- The head of a PES packet that brings something for the cache. -/
def opens : Atom → Bool
  | head u => u.wanted != []
  | byte _ _ => false

end Atom

def PsUnit.atoms (u : PsUnit) : List Atom := .head u :: u.payload.map (.byte u.recognised)

def bytesOf (atoms : List Atom) : List UInt8 := atoms.flatMap Atom.bytes

/-- What is left of a stream: the bytes of the packet in hand, and the units after it. -/
def rest (cur : List UInt8) (recognised : Bool) (units : List PsUnit) : List Atom :=
  cur.map (.byte recognised) ++ units.flatMap PsUnit.atoms

/-- The RTP payload goes on with a PES packet. -/
def continues : List Atom → Bool
  | .byte _ _ :: _ => true
  | _ => false

/-- RTP payloads of a stream. One that goes on with a PES packet has at least four bytes and does not
begin with a start code. -/
structure Cut (units : List PsUnit) (payloads : List (List Atom)) : Prop where
  whole : payloads.flatten = units.flatMap PsUnit.atoms
  apart : ∀ atoms ∈ payloads, continues atoms = true →
    4 ≤ (bytesOf atoms).length ∧ unknown (bytesOf atoms) = true

variable {cur : List UInt8} {r : Bool} {units : List PsUnit} {a : Atom} {atoms more : List Atom}

theorem bytesOf_append (l m : List Atom) : bytesOf (l ++ m) = bytesOf l ++ bytesOf m :=
  List.flatMap_append

theorem bytesOf_bytes (r : Bool) (bs : List UInt8) : bytesOf (bs.map (.byte r)) = bs := by
  induction bs with
  | nil => rfl
  | cons b bs ih =>
    rw [List.map_cons, bytesOf, List.flatMap_cons]
    exact congrArg (b :: ·) ih

/-- What comes next: a byte of the packet in hand, or the head of the next unit. -/
theorem rest_cases (h : a :: atoms = rest cur r units) :
    (∃ b cur', cur = b :: cur' ∧ a = .byte r b ∧ atoms = rest cur' r units) ∨
      ∃ u units', cur = [] ∧ units = u :: units' ∧ a = .head u ∧
        atoms = rest u.payload u.recognised units' := by
  cases cur with
  | cons b cur =>
    rw [rest, List.map_cons, List.cons_append, List.cons.injEq] at h
    exact .inl ⟨b, cur, rfl, h.1, h.2⟩
  | nil =>
    cases units with
    | nil => cases h
    | cons u units =>
      rw [rest, List.map_nil, List.nil_append, List.flatMap_cons, PsUnit.atoms, List.cons_append,
        List.cons.injEq] at h
      exact .inr ⟨u, units, rfl, rfl, h.1, h.2⟩

theorem exists_rest (h : atoms ++ more = rest cur r units) :
    ∃ cur' r' units', more = rest cur' r' units' := by
  induction atoms generalizing cur r units with
  | nil => exact ⟨cur, r, units, h⟩
  | cons a atoms ih =>
    rcases rest_cases h with ⟨_, _, _, _, h⟩ | ⟨_, _, _, _, _, h⟩
    · exact ih h
    · exact ih h

/-- A part of a list ends inside the mapped list at its front, or has all of it. -/
theorem append_eq_map_append {α β : Type} {f : α → β} {as bs cs : List β} {cur : List α}
    (h : as ++ bs = cur.map f ++ cs) :
    (∃ cur₁ cur₂, cur = cur₁ ++ cur₂ ∧ cur₂ ≠ [] ∧ as = cur₁.map f ∧ bs = cur₂.map f ++ cs) ∨
      ∃ as', as = cur.map f ++ as' ∧ as' ++ bs = cs := by
  rcases List.append_eq_append_iff.mp h with ⟨mid, hcur, hbs⟩ | ⟨mid, has, hcs⟩
  · obtain ⟨cur₁, cur₂, rfl, rfl, rfl⟩ := List.map_eq_append_iff.mp hcur
    by_cases hnil : cur₂ = []
    · subst hnil
      exact .inr ⟨[], by simp, by simpa using hbs⟩
    · exact .inl ⟨cur₁, cur₂, rfl, hnil, rfl, hbs⟩
  · exact .inr ⟨mid, has, hcs.symm⟩

/-- A piece of the stream ends inside the packet in hand, or has all of it. -/
theorem rest_split (h : atoms ++ more = rest cur r units) :
    (∃ cur₁ cur₂, cur = cur₁ ++ cur₂ ∧ cur₂ ≠ [] ∧ atoms = cur₁.map (.byte r) ∧
        more = rest cur₂ r units) ∨
      ∃ atoms', atoms = cur.map (.byte r) ++ atoms' ∧
        atoms' ++ more = units.flatMap PsUnit.atoms :=
  append_eq_map_append h

/-! ## What the parser does, atom by atom -/

/-- `active`: the head of the packet in hand was seen. `blocked`: the rest of the RTP payload is not
looked at. -/
structure Demux where
  active : Bool
  blocked : Bool
  out : List UInt8

namespace Demux

def init : Demux := ⟨false, false, []⟩

def atom (d : Demux) : Atom → Demux
  | .head u =>
    if u.recognised then { d with active := !d.blocked }
    else if u.foreign then { d with active := false, blocked := true }
    else d
  | .byte _ b =>
    if d.active then { d with out := d.out ++ [b] } else { d with blocked := true }

/-- One RTP payload. -/
def payload (d : Demux) (atoms : List Atom) : Demux :=
  atoms.foldl atom { d with blocked := false }

variable {d : Demux}

theorem foldl_bytes (h : d.active = true) (r : Bool) (bs : List UInt8) :
    (bs.map (.byte r)).foldl atom d = { d with out := d.out ++ bs } := by
  induction bs generalizing d with
  | nil => simp
  | cons b bs ih =>
    rw [List.map_cons, List.foldl_cons, atom, if_pos h, ih (d := { d with out := d.out ++ [b] }) h]
    simp

/-- Once it is blocked, nothing changes. -/
theorem foldl_blocked (hactive : d.active = false) (hblocked : d.blocked = true)
    (atoms : List Atom) : atoms.foldl atom d = d := by
  induction atoms with
  | nil => rfl
  | cons a atoms ih =>
    obtain ⟨active, blocked, out⟩ := d
    simp only at hactive hblocked
    subst hactive hblocked
    have hstep : atom ⟨false, true, out⟩ a = ⟨false, true, out⟩ := by
      cases a with
      | head u =>
        rw [atom]
        split
        · rfl
        · split <;> rfl
      | byte r b => rfl
    rw [List.foldl_cons, hstep, ih]

end Demux

/-! ## The parser follows -/

/-- The parser and the demultiplexer agree between two RTP payloads. -/
structure Agree (s : Ps) (d : Demux) (cur : List UInt8) : Prop where
  cache : s.cache = d.out
  raw : s.rawdataLength = if d.active then cur.length else 0
  flag : 0 < s.rawdataLength → s.videoFlag = true

theorem PsUnit.payload_eq_nil {u : PsUnit} (hrec : u.recognised = false)
    (hfor : u.foreign = false) : u.payload = [] := by
  cases u with
  | pack => rfl
  | system => rfl
  | streamMap => rfl
  | pes =>
    rw [PsUnit.recognised] at hrec
    rw [PsUnit.foreign, hrec] at hfor
    cases hfor

theorem bytesOf_head (u : PsUnit) (atoms : List Atom) :
    bytesOf (.head u :: atoms) = u.head ++ bytesOf atoms := by
  rw [bytesOf, List.flatMap_cons]
  rfl

theorem psParseLoop_nil (fuel : Nat) (s : Ps) : psParseLoop (fuel + 1) s [] = some s := by
  rw [psParseLoop, if_pos rfl]

/-- The parser from the head of a unit to the end of the RTP payload. -/
theorem psParseLoop_agree {fuel : Nat} {s : Ps} {d : Demux}
    (h : atoms ++ more = units.flatMap PsUnit.atoms) (hfuel : atoms.length < fuel)
    (hcache : s.cache = d.out) (hraw : s.rawdataLength = 0) (hblocked : d.blocked = false) :
    ∃ s' cur r units', psParseLoop fuel s (bytesOf atoms) = some s' ∧
      more = rest cur r units' ∧ Agree s' (atoms.foldl Demux.atom d) cur := by
  induction fuel generalizing atoms units s d with
  | zero => cases hfuel
  | succ fuel ih =>
    cases atoms with
    | nil =>
      refine ⟨s, [], false, units, psParseLoop_nil fuel s, by simpa [rest] using h, hcache, ?_, ?_⟩
      · rw [hraw]
        exact (ite_self _).symm
      · rw [hraw]
        exact fun hlt => absurd hlt (Nat.lt_irrefl 0)
    | cons a atoms =>
      have hrest : a :: (atoms ++ more) = rest [] false units := h
      obtain ⟨_, _, hcur, _⟩ | ⟨u, units', -, rfl, rfl, hnext⟩ := rest_cases hrest
      · cases hcur
      rw [List.length_cons, Nat.add_lt_add_iff_right] at hfuel
      rw [bytesOf_head, List.foldl_cons]
      by_cases hrec : u.recognised = true
      · have hatom : d.atom (.head u) = { d with active := true } := by
          rw [Demux.atom, if_pos hrec, hblocked]
          rfl
        rw [psParseLoop_recognised hrec, hatom]
        rcases rest_split hnext with ⟨cur₁, cur₂, hpay, hne, rfl, hmore⟩ | ⟨atoms', rfl, hmore⟩
        · -- the RTP payload ends inside the packet
          have hlen : ¬u.payload.length ≤ (bytesOf (cur₁.map (.byte u.recognised))).length := by
            have := List.length_pos_iff.mpr hne
            rw [bytesOf_bytes, hpay, List.length_append]
            omega
          obtain ⟨k, rfl⟩ := Nat.exists_eq_succ_of_ne_zero (Nat.ne_zero_of_lt hfuel)
          rw [if_neg hlen, bytesOf_bytes, psParseLoop_nil, Demux.foldl_bytes rfl]
          refine ⟨_, cur₂, u.recognised, units', rfl, hmore, ?_, ?_, fun _ => rfl⟩
          · show s.cache ++ cur₁ = d.out ++ cur₁
            rw [hcache]
          · show u.payload.length - cur₁.length = cur₂.length
            rw [hpay, List.length_append]
            omega
        · -- it goes on behind it
          rw [bytesOf_append, bytesOf_bytes, List.foldl_append, Demux.foldl_bytes rfl,
            if_pos (by simp), List.take_left' rfl, List.drop_left' rfl]
          refine ih hmore ?_ ?_ rfl hblocked
          · rw [List.length_append, List.length_map] at hfuel
            omega
          · show s.cache ++ u.payload = d.out ++ u.payload
            rw [hcache]
      · rw [Bool.not_eq_true] at hrec
        by_cases hfor : u.foreign = true
        · -- nothing behind a packet of another kind is looked at
          have hatom : d.atom (.head u) = { d with active := false, blocked := true } := by
            rw [Demux.atom, hrec, if_neg Bool.false_ne_true, if_pos hfor]
          obtain ⟨hunknown, hlen⟩ := unknown_head hfor (bytesOf atoms)
          obtain ⟨cur', r', units'', hmore⟩ := exists_rest hnext
          rw [psParseLoop_unknown hlen hunknown, hatom, Demux.foldl_blocked rfl rfl,
            if_neg (by rw [hraw]; exact fun hc => absurd hc.2 (Nat.lt_irrefl 0))]
          refine ⟨s, cur', r', units'', rfl, hmore, hcache, hraw, fun hlt => ?_⟩
          exact absurd (hraw ▸ hlt) (Nat.lt_irrefl 0)
        · rw [Bool.not_eq_true] at hfor
          have hatom : d.atom (.head u) = d := by
            rw [Demux.atom, hrec, hfor, if_neg Bool.false_ne_true, if_neg Bool.false_ne_true]
          rw [psParseLoop_skip hrec hfor, hatom]
          rw [PsUnit.payload_eq_nil hrec hfor] at hnext
          exact ih hnext hfuel hcache hraw hblocked

/-- The fuel of `psParse` is enough for what is left of the RTP payload. -/
theorem length_le_bytesOf (atoms : List Atom) : atoms.length ≤ (bytesOf atoms).length := by
  induction atoms with
  | nil => exact Nat.le_refl 0
  | cons a atoms ih =>
    have hpos : 0 < a.bytes.length := by
      cases a with
      | head u => cases u <;> simp [Atom.bytes, PsUnit.head]
      | byte r b => exact Nat.one_pos
    rw [bytesOf, List.flatMap_cons, List.length_append, List.length_cons]
    rw [bytesOf] at ih
    omega

/-- An RTP payload that goes on with a PES packet of which nothing is expected is left alone. -/
theorem psParse_agree_idle {s : Ps} {d : Demux} {b : UInt8}
    (hnext : atoms ++ more = rest cur r units) (hagree : Agree s d (b :: cur))
    (hactive : d.active = false) (hlen : 4 ≤ (bytesOf (.byte r b :: atoms)).length)
    (hunknown : unknown (bytesOf (.byte r b :: atoms)) = true) :
    ∃ s' cur' r' units', psParse s (bytesOf (.byte r b :: atoms)) = some s' ∧
      more = rest cur' r' units' ∧ Agree s' (d.payload (.byte r b :: atoms)) cur' := by
  have hraw : s.rawdataLength = 0 := by
    rw [hagree.raw, hactive, if_neg Bool.false_ne_true]
  obtain ⟨cur', r', units', hmore⟩ := exists_rest hnext
  have hatom : Demux.atom { d with blocked := false } (.byte r b) = { d with blocked := true } := by
    rw [Demux.atom, show ({ d with blocked := false } : Demux).active = false from hactive,
      if_neg Bool.false_ne_true]
  rw [psParse, psParseLoop_unknown hlen hunknown, Demux.payload, List.foldl_cons,
    if_neg (by rw [hraw]; exact fun hc => absurd hc.2 (Nat.lt_irrefl 0)), hatom,
    Demux.foldl_blocked (d := { d with blocked := true }) hactive rfl]
  refine ⟨s, cur', r', units', rfl, hmore, hagree.cache, ?_, hagree.flag⟩
  rw [hraw, show ({ d with blocked := true } : Demux).active = false from hactive,
    if_neg Bool.false_ne_true]

/-- An RTP payload that goes on with a PES packet the parser is writing: the rest of the packet goes
to the cache, as far as it is here. -/
theorem psParse_agree_active {s : Ps} {d : Demux} {b : UInt8}
    (h : .byte r b :: atoms ++ more = rest (b :: cur) r units) (hagree : Agree s d (b :: cur))
    (hactive : d.active = true) (hlen : 4 ≤ (bytesOf (.byte r b :: atoms)).length)
    (hunknown : unknown (bytesOf (.byte r b :: atoms)) = true) :
    ∃ s' cur' r' units', psParse s (bytesOf (.byte r b :: atoms)) = some s' ∧
      more = rest cur' r' units' ∧ Agree s' (d.payload (.byte r b :: atoms)) cur' := by
  have hfuel := length_le_bytesOf (.byte r b :: atoms)
  have hraw : s.rawdataLength = (b :: cur).length := by
    rw [hagree.raw, hactive, if_pos rfl]
  have hflag : s.videoFlag = true ∧ 0 < s.rawdataLength := by
    have hpos : 0 < s.rawdataLength := by
      rw [hraw]
      exact Nat.succ_pos _
    exact ⟨hagree.flag hpos, hpos⟩
  rw [psParse, psParseLoop_unknown hlen hunknown, Demux.payload, if_pos hflag, hraw]
  rcases rest_split h with ⟨cur₁, cur₂, hcur, hne, hatoms, hmore⟩ | ⟨atoms', hatoms, hmore⟩
  · -- the packet is longer than the RTP payload
    have hcurLen := congrArg List.length hcur
    rw [List.length_append] at hcurLen
    rw [hatoms, bytesOf_bytes,
      Demux.foldl_bytes (d := { d with blocked := false }) hactive, if_neg (by omega)]
    refine ⟨_, cur₂, r, units, rfl, hmore, ?_, ?_, fun _ => hflag.1⟩
    · show s.cache ++ cur₁ = d.out ++ cur₁
      rw [hagree.cache]
    · show (b :: cur).length - cur₁.length = if d.active then cur₂.length else 0
      rw [hactive, if_pos rfl]
      omega
  · have hatomsLen := congrArg List.length hatoms
    rw [List.length_cons, List.length_append, List.length_map] at hatomsLen
    rw [hatoms, bytesOf_append, bytesOf_bytes, List.foldl_append,
      Demux.foldl_bytes (d := { d with blocked := false }) hactive]
    by_cases hnil : atoms' = []
    · -- both end
      subst hnil
      rw [if_neg (by simp [bytesOf])]
      refine ⟨_, [], r, units, rfl, hmore, ?_, ?_, fun _ => hflag.1⟩
      · show s.cache ++ (b :: cur ++ []) = d.out ++ b :: cur
        rw [hagree.cache, List.append_nil]
      · show (b :: cur).length - (b :: cur ++ []).length = if d.active then 0 else 0
        rw [List.append_nil, Nat.sub_self, ite_self]
    · have hlt := length_le_bytesOf atoms'
      have hpos := List.length_pos_iff.mpr hnil
      rw [if_pos (by rw [List.length_append]; omega), List.take_left' rfl, List.drop_left' rfl]
      refine psParseLoop_agree hmore ?_ ?_ rfl rfl
      · rw [List.length_append]
        omega
      · show s.cache ++ b :: cur = d.out ++ b :: cur
        rw [hagree.cache]

/-- The parser on one RTP payload. -/
theorem psParse_agree {s : Ps} {d : Demux} (h : atoms ++ more = rest cur r units)
    (hagree : Agree s d cur)
    (hcont : continues atoms = true →
      4 ≤ (bytesOf atoms).length ∧ unknown (bytesOf atoms) = true) :
    ∃ s' cur' r' units', psParse s (bytesOf atoms) = some s' ∧ more = rest cur' r' units' ∧
      Agree s' (d.payload atoms) cur' := by
  have hfuel := length_le_bytesOf atoms
  cases cur with
  | nil =>
    have hraw : s.rawdataLength = 0 := hagree.raw.trans (ite_self _)
    exact psParseLoop_agree (d := { d with blocked := false }) h (by omega) hagree.cache hraw rfl
  | cons b cur =>
    cases atoms with
    | nil =>
      exact ⟨s, b :: cur, r, units, psParseLoop_nil _ s, h, hagree.cache, hagree.raw, hagree.flag⟩
    | cons a atoms =>
      obtain ⟨b', cur', hcur, rfl, hnext⟩ | ⟨_, _, hcur, _⟩ := rest_cases h
      · cases hcur
        obtain ⟨hlen, hunknown⟩ := hcont rfl
        cases hactive : d.active with
        | false => exact psParse_agree_idle hnext hagree hactive hlen hunknown
        | true => exact psParse_agree_active h hagree hactive hlen hunknown
      · cases hcur

theorem psFeed_agree {payloads : List (List Atom)} {s : Ps} {d : Demux}
    (h : payloads.flatten = rest cur r units) (hagree : Agree s d cur)
    (hcont : ∀ atoms ∈ payloads, continues atoms = true →
      4 ≤ (bytesOf atoms).length ∧ unknown (bytesOf atoms) = true) :
    ∃ s', psFeed s (payloads.map bytesOf) = some s' ∧
      s'.cache = (payloads.foldl Demux.payload d).out := by
  induction payloads generalizing s d cur r units with
  | nil => exact ⟨s, rfl, hagree.cache⟩
  | cons atoms payloads ih =>
    rw [List.flatten_cons] at h
    obtain ⟨s₁, cur', r', units', hparse, hmore, hagree'⟩ :=
      psParse_agree h hagree (hcont atoms List.mem_cons_self)
    obtain ⟨s₂, hfeed, hcache⟩ :=
      ih hmore hagree' fun l hl => hcont l (List.mem_cons_of_mem _ hl)
    refine ⟨s₂, ?_, hcache⟩
    rw [psFeed, List.map_cons, List.foldlM_cons, hparse]
    exact hfeed

/-! ## Nothing is lost in clear RTP payloads -/

/-- No head of a recognised packet comes after a part of another one; `behind` says whether there was
one already. -/
def clearFrom : Bool → List Atom → Bool
  | _, [] => true
  | behind, a :: atoms => !(behind && a.opens) && clearFrom (behind || a.foreign) atoms

/-- In this RTP payload. -/
def clear (atoms : List Atom) : Bool := clearFrom false atoms

/-- What the demultiplexer will write of the stream from here on, unless it is blocked. -/
def coming (d : Demux) (cur : List UInt8) (units : List PsUnit) : List UInt8 :=
  (if d.active then cur else []) ++ units.flatMap PsUnit.wanted

/-- Nothing was lost so far. -/
structure Kept (total : List UInt8) (d : Demux) (cur : List UInt8) (r : Bool)
    (units : List PsUnit) : Prop where
  sum : d.out ++ coming d cur units = total
  same : cur ≠ [] → d.active = r

/-- Something was. -/
def Lost (total : List UInt8) (d : Demux) (cur : List UInt8) (units : List PsUnit) : Prop :=
  (d.out ++ coming d cur units).length < total.length

variable {total : List UInt8} {d : Demux}

theorem PsUnit.foreign_of_recognised {u : PsUnit} (h : u.recognised = true) : u.foreign = false := by
  cases u with
  | pack => rfl
  | system => rfl
  | streamMap => rfl
  | pes =>
    rw [PsUnit.recognised] at h
    rw [PsUnit.foreign, h]
    rfl

theorem PsUnit.wanted_of_recognised {u : PsUnit} (h : u.recognised = true) :
    u.wanted = u.payload := if_pos h

theorem PsUnit.wanted_of_not_recognised {u : PsUnit} (h : u.recognised = false) : u.wanted = [] := by
  rw [PsUnit.wanted, h, if_neg Bool.false_ne_true]

/-- A byte of the packet in hand leaves the sum alone. -/
theorem sum_byte (b : UInt8) :
    (d.atom (.byte r b)).out ++ coming (d.atom (.byte r b)) cur units =
      d.out ++ coming d (b :: cur) units := by
  rw [Demux.atom, coming, coming]
  cases hactive : d.active with
  | true => simp
  | false => simp

/-- So does a head, but for one that opens a packet when the rest is not looked at. -/
theorem sum_head (u : PsUnit) :
    (d.atom (.head u)).out ++ coming (d.atom (.head u)) u.payload units =
      d.out ++ ((if d.blocked then [] else u.wanted) ++ units.flatMap PsUnit.wanted) := by
  rw [Demux.atom, coming]
  by_cases hrec : u.recognised = true
  · rw [if_pos hrec, PsUnit.wanted_of_recognised hrec]
    cases d.blocked <;> rfl
  · rw [Bool.not_eq_true] at hrec
    rw [hrec, if_neg Bool.false_ne_true, PsUnit.wanted_of_not_recognised hrec, ite_self]
    by_cases hfor : u.foreign = true
    · rw [if_pos hfor]
      rfl
    · rw [Bool.not_eq_true] at hfor
      rw [hfor, if_neg Bool.false_ne_true, PsUnit.payload_eq_nil hrec hfor, ite_self]

theorem lost_step (h : Lost total d cur units) (hrest : a :: atoms = rest cur r units) :
    ∃ cur' r' units', atoms = rest cur' r' units' ∧ Lost total (d.atom a) cur' units' := by
  rcases rest_cases hrest with ⟨b, cur', rfl, rfl, hnext⟩ | ⟨u, units', rfl, rfl, rfl, hnext⟩
  · refine ⟨cur', r, units, hnext, ?_⟩
    rwa [Lost, sum_byte]
  · refine ⟨u.payload, u.recognised, units', hnext, ?_⟩
    rw [Lost, coming, ite_self, List.nil_append, List.flatMap_cons] at h
    rw [Lost, sum_head]
    simp only [List.length_append] at h ⊢
    split
    · rw [List.length_nil]
      omega
    · omega

theorem kept_step (h : Kept total d cur r units) (hrest : a :: atoms = rest cur r units)
    (hopens : (d.blocked && a.opens) = false) :
    (d.atom a).blocked = (d.blocked || a.foreign) ∧
      ∃ cur' r' units', atoms = rest cur' r' units' ∧ Kept total (d.atom a) cur' r' units' := by
  rcases rest_cases hrest with ⟨b, cur', rfl, rfl, hnext⟩ | ⟨u, units', rfl, rfl, rfl, hnext⟩
  · have hactive : d.active = r := h.same (List.cons_ne_nil _ _)
    have hsame : (d.atom (.byte r b)).active = d.active := by
      rw [Demux.atom]
      split <;> rfl
    refine ⟨?_, cur', r, units, hnext, (sum_byte b).trans h.sum, fun _ => hsame.trans hactive⟩
    rw [Demux.atom, hactive, Atom.foreign]
    cases r with
    | true => simp
    | false => simp
  · refine ⟨?_, u.payload, u.recognised, units', hnext, ?_, fun hne => ?_⟩
    · rw [Demux.atom, Atom.foreign]
      by_cases hrec : u.recognised = true
      · rw [if_pos hrec, PsUnit.foreign_of_recognised hrec, Bool.or_false]
      · rw [Bool.not_eq_true] at hrec
        rw [hrec, if_neg Bool.false_ne_true]
        cases u.foreign <;> simp
    · have hsum := h.sum
      rw [coming, ite_self, List.nil_append, List.flatMap_cons] at hsum
      rw [sum_head, ← hsum]
      cases hb : d.blocked with
      | false => rfl
      | true =>
        rw [hb, Bool.true_and, Atom.opens, bne_eq_false_iff_eq] at hopens
        rw [hopens, ite_self]
    · rw [Demux.atom]
      by_cases hrec : u.recognised = true
      · have hb : d.blocked = false := by
          by_contra hb
          rw [Bool.not_eq_false] at hb
          rw [hb, Bool.true_and, Atom.opens, bne_eq_false_iff_eq,
            PsUnit.wanted_of_recognised hrec] at hopens
          exact hne hopens
        rw [if_pos hrec, hb, hrec]
        rfl
      · rw [Bool.not_eq_true] at hrec
        by_cases hfor : u.foreign = true
        · rw [hrec, if_neg Bool.false_ne_true, if_pos hfor]
        · rw [Bool.not_eq_true] at hfor
          exact absurd (PsUnit.payload_eq_nil hrec hfor) hne

/-- A packet is lost when it opens where nothing is looked at. -/
theorem lost_of_opens (h : Kept total d cur r units) (hrest : a :: atoms = rest cur r units)
    (hopens : (d.blocked && a.opens) = true) :
    ∃ cur' r' units', atoms = rest cur' r' units' ∧ Lost total (d.atom a) cur' units' := by
  rw [Bool.and_eq_true] at hopens
  rcases rest_cases hrest with ⟨b, cur', rfl, rfl, hnext⟩ | ⟨u, units', rfl, rfl, rfl, hnext⟩
  · cases hopens.2
  · refine ⟨u.payload, u.recognised, units', hnext, ?_⟩
    have hsum := h.sum
    have hpos : 0 < u.wanted.length := List.length_pos_iff.mpr (by simpa [Atom.opens] using hopens.2)
    rw [coming, ite_self, List.nil_append, List.flatMap_cons] at hsum
    rw [Lost, sum_head, ← hsum, hopens.1, if_pos rfl, List.nil_append]
    simp only [List.length_append]
    omega

theorem lost_foldl (h : Lost total d cur units) (hrest : atoms ++ more = rest cur r units) :
    ∃ cur' r' units', more = rest cur' r' units' ∧
      Lost total (atoms.foldl Demux.atom d) cur' units' := by
  induction atoms generalizing d cur r units with
  | nil => exact ⟨cur, r, units, hrest, h⟩
  | cons a atoms ih =>
    obtain ⟨_, _, _, hnext, h'⟩ := lost_step h hrest
    exact ih h' hnext

/-- Along an RTP payload nothing is lost if it is clear, and something is if it is not. -/
theorem kept_foldl (h : Kept total d cur r units) (hrest : atoms ++ more = rest cur r units) :
    ∃ cur' r' units', more = rest cur' r' units' ∧
      (if clearFrom d.blocked atoms then Kept total (atoms.foldl Demux.atom d) cur' r' units'
        else Lost total (atoms.foldl Demux.atom d) cur' units') := by
  induction atoms generalizing d cur r units with
  | nil => exact ⟨cur, r, units, hrest, h⟩
  | cons a atoms ih =>
    rw [clearFrom, List.foldl_cons]
    by_cases hopens : (d.blocked && a.opens) = true
    · rw [hopens]
      obtain ⟨_, _, _, hnext, h'⟩ := lost_of_opens h hrest hopens
      exact lost_foldl h' hnext
    · rw [Bool.not_eq_true] at hopens
      obtain ⟨hblocked, _, _, _, hnext, h'⟩ := kept_step h hrest hopens
      rw [hopens, ← hblocked]
      exact ih h' hnext

theorem lost_payloads {payloads : List (List Atom)} (h : Lost total d cur units)
    (hrest : payloads.flatten = rest cur r units) :
    (payloads.foldl Demux.payload d).out ≠ total := by
  induction payloads generalizing d cur r units with
  | nil =>
    rintro rfl
    rw [Lost, List.length_append] at h
    exact absurd h (by simp)
  | cons atoms payloads ih =>
    rw [List.flatten_cons] at hrest
    obtain ⟨_, _, _, hnext, h'⟩ := lost_foldl (d := { d with blocked := false }) h hrest
    exact ih h' hnext

theorem out_payloads_iff {payloads : List (List Atom)} (h : Kept total d cur r units)
    (hrest : payloads.flatten = rest cur r units) :
    (payloads.foldl Demux.payload d).out = total ↔ ∀ atoms ∈ payloads, clear atoms = true := by
  induction payloads generalizing d cur r units with
  | nil =>
    -- the stream is at its end
    have hnil := hrest.symm
    rw [List.flatten_nil, rest, List.append_eq_nil_iff, List.map_eq_nil_iff] at hnil
    have hunits : units = [] := by
      cases units with
      | nil => rfl
      | cons u units => cases hnil.2
    have hsum := h.sum
    rw [coming, hnil.1, hunits, ite_self, List.flatMap_nil, List.append_nil, List.append_nil] at hsum
    simpa using hsum
  | cons atoms payloads ih =>
    rw [List.flatten_cons] at hrest
    obtain ⟨_, _, _, hnext, h'⟩ :=
      kept_foldl (d := { d with blocked := false }) ⟨h.sum, h.same⟩ hrest
    rw [List.foldl_cons, List.forall_mem_cons]
    by_cases hclear : clear atoms = true
    · rw [if_pos (show clearFrom false atoms = true from hclear)] at h'
      exact (ih h' hnext).trans (by simp [hclear])
    · rw [if_neg (show ¬clearFrom false atoms = true from hclear)] at h'
      exact iff_of_false (lost_payloads h' hnext) fun hall => hclear hall.1

/-- The cache gets the payloads of all recognised PES packets exactly when every RTP payload is
clear. -/
theorem psFeed_cache_iff (units : List PsUnit) (payloads : List (List Atom))
    (hcut : Cut units payloads) :
    ∃ s, psFeed Ps.init (payloads.map bytesOf) = some s ∧
      (s.cache = units.flatMap PsUnit.wanted ↔ ∀ atoms ∈ payloads, clear atoms = true) := by
  have hrest : payloads.flatten = rest [] false units := hcut.whole
  have hinit : Agree Ps.init Demux.init [] := ⟨rfl, rfl, fun h => absurd h (Nat.lt_irrefl 0)⟩
  obtain ⟨s, hs, hcache⟩ := psFeed_agree hrest hinit hcut.apart
  refine ⟨s, hs, ?_⟩
  rw [hcache]
  exact out_payloads_iff (d := Demux.init) ⟨rfl, fun hne => absurd rfl hne⟩ hrest

/-- A video packet with four bytes of payload, and one of the private stream 1 with two. -/
def videoPes : PsUnit :=
  .pes 0xE0 0x88 0x80 [] [0, 0, 1, 0x65] (by decide) (by decide) (by decide)

def privatePes : PsUnit := .pes 0xBD 0x88 0x80 [] [7, 7] (by decide) (by decide) (by decide)

def packHead : PsUnit := .pack [0x44, 0, 4, 0, 4, 1, 0, 0, 3] 0xF8 [] rfl rfl

/-- The private packet has an RTP payload of its own. -/
def clearCut : List (List Atom) := [packHead.atoms ++ videoPes.atoms, privatePes.atoms]

theorem cut_clearCut : Cut [packHead, videoPes, privatePes] clearCut where
  whole := by simp [clearCut]
  apart := fun atoms hmem hcont => by
    have hall : ∀ l ∈ clearCut, continues l = false := by
      simp [clearCut, PsUnit.atoms, continues]
    rw [hall atoms hmem] at hcont
    cases hcont

theorem psFeed_cache_iff_clearCut :
    ∃ s, psFeed Ps.init (clearCut.map bytesOf) = some s ∧ s.cache = [0, 0, 1, 0x65] := by
  obtain ⟨s, hs, hiff⟩ := psFeed_cache_iff [packHead, videoPes, privatePes] clearCut cut_clearCut
  refine ⟨s, hs, hiff.mpr fun atoms hmem => ?_⟩
  have hall : ∀ l ∈ clearCut, clear l = true := by decide +kernel
  exact hall atoms hmem

/-- A video packet behind the private one in the same RTP payload. -/
def mixedCut : List (List Atom) := [packHead.atoms ++ privatePes.atoms ++ videoPes.atoms]

theorem cut_mixedCut : Cut [packHead, privatePes, videoPes] mixedCut where
  whole := by simp [mixedCut]
  apart := fun atoms hmem hcont => by
    have hall : ∀ l ∈ mixedCut, continues l = false := by
      simp [mixedCut, PsUnit.atoms, continues]
    rw [hall atoms hmem] at hcont
    cases hcont

/-- Then the cache stays empty. -/
theorem psFeed_mixed_loses :
    Cut [packHead, privatePes, videoPes] mixedCut ∧
      psFeed Ps.init (mixedCut.map bytesOf) = some Ps.init ∧
      Ps.init.cache ≠ [packHead, privatePes, videoPes].flatMap PsUnit.wanted :=
  ⟨cut_mixedCut, by decide +kernel, by decide +kernel⟩

end ProgrammingPath.Gb28181
