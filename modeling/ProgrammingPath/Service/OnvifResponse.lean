import ProgrammingPath.Service.OnvifNames

/-!
# The tokens of a well-formed ONVIF response

A response is a sequence of start tags with attributes, end tags, text and markup (comments, processing
instructions). The tokens that are stored are those of its Profiles elements if each of these is read as
what it is: its name in the same way by both passes, and the first `token=` behind the first space with a
value in quotes that is not empty and has no quote inside; and if no other tag is read as Profiles with a
`token=`, nor closed by its own slash under a name whose text the callback ends. Nothing of this depends on
how the elements are nested.
-/

namespace ProgrammingPath.Onvif

open ProgrammingPath.Lib

/-! ## Responses -/

/-- White space in a tag. -/
def isBlank (b : UInt8) : Bool := b == 32 || b == 9 || b == 10 || b == 13

/-- A byte of a name, with the colon behind its prefix. -/
def isNameByte (b : UInt8) : Bool :=
  (48 ≤ b && b ≤ 58) || (65 ≤ b && b ≤ 90) || (97 ≤ b && b ≤ 122) || b == 45 || b == 46 || b == 95 || 128 ≤ b

theorem isBlank_facts {b : UInt8} (h : isBlank b = true) : b ≠ 0 ∧ b ≠ 60 := by
  constructor <;> rintro rfl <;> exact absurd h (by decide)

theorem isNameByte_facts {b : UInt8} (h : isNameByte b = true) : b ≠ 0 ∧ b ≠ 60 ∧ b ≠ 47 := by
  refine ⟨?_, ?_, ?_⟩ <;> rintro rfl <;> exact absurd h (by decide)

/-- An attribute, with the white space before it. -/
structure Attr where
  sep : List UInt8
  name : List UInt8
  before : List UInt8
  after : List UInt8
  quote : UInt8
  value : List UInt8
  sep_blank : sep ≠ [] ∧ ∀ b ∈ sep, isBlank b = true
  name_bytes : name ≠ [] ∧ ∀ b ∈ name, isNameByte b = true
  before_blank : ∀ b ∈ before, isBlank b = true
  after_blank : ∀ b ∈ after, isBlank b = true
  quote_eq : quote = 34 ∨ quote = 39
  value_bytes : ∀ b ∈ value, b ≠ 0 ∧ b ≠ 60 ∧ b ≠ quote

def Attr.text (a : Attr) : List UInt8 :=
  a.sep ++ (a.name ++ (a.before ++ (61 :: (a.after ++ (a.quote :: (a.value ++ [a.quote]))))))

/-- A start tag, or the tag of an empty element. -/
structure Tag where
  name : List UInt8
  attrs : List Attr
  tail : List UInt8
  self : Bool
  name_bytes : name ≠ [] ∧ ∀ b ∈ name, isNameByte b = true
  tail_blank : ∀ b ∈ tail, isBlank b = true

/-- What stands between the `<` and the `>` of a tag. -/
def Tag.raw (t : Tag) : List UInt8 :=
  t.name ++ (t.attrs.flatMap Attr.text ++ (t.tail ++ if t.self then [47] else []))

/-- The name of an element without its prefix. -/
def Tag.localName (t : Tag) : List UInt8 :=
  if 58 ∈ t.name then (t.name.dropWhile (· != 58)).drop 1 else t.name

/-- The value of the attribute `token`. -/
def Tag.token (t : Tag) : Option (List UInt8) := (t.attrs.find? (·.name == text "token")).map (·.value)

def Tag.isProfiles (t : Tag) : Bool := t.localName == xmlLabelProfiles

inductive Piece
  | tag (t : Tag)
  | close (name blanks : List UInt8) (hname : ∀ b ∈ name, isNameByte b = true)
      (hblanks : ∀ b ∈ blanks, isBlank b = true)
  | chars (bytes : List UInt8) (hbytes : ∀ b ∈ bytes, b ≠ 0 ∧ b ≠ 60)
  | markup (first : UInt8) (body : List UInt8) (hfirst : first = 33 ∨ first = 63) (hbody : 0 ∉ body)

def Piece.text : Piece → List UInt8
  | .tag t => 60 :: (t.raw ++ [62])
  | .close name blanks _ _ => 60 :: 47 :: (name ++ (blanks ++ [62]))
  | .chars bytes _ => bytes
  | .markup first body _ _ => 60 :: first :: (body ++ [62])

/-- The text of a response. -/
def render (doc : List Piece) : List UInt8 := doc.flatMap Piece.text

/-- The token of a Profiles element. -/
def Piece.tokens : Piece → List (List UInt8)
  | .tag t => if t.isProfiles then t.token.toList else []
  | _ => []

/-- The tokens of the Profiles elements of a response, in their order. -/
def tokens (doc : List Piece) : List (List UInt8) := doc.flatMap Piece.tokens

/-- Every Profiles element has a token that fits its array. -/
def Carries (doc : List Piece) : Prop :=
  ∀ t, Piece.tag t ∈ doc → t.isProfiles = true → ∃ token, t.token = some token ∧ token.length < 100

/-! ## What the passes read of a tag -/

/-- What stands before the first `>`, which may be one inside a value. -/
def Tag.visible (t : Tag) : List UInt8 := t.raw.takeWhile (· != 62)

/-- The bytes behind the first space of a label. -/
def attribPart (label : List UInt8) : List UInt8 := label.drop (attribAt label + 1)

/-- A tag that is not read as Profiles, or has no `token=` behind its first space; and that is not closed by
its slash when the callback ends its text. -/
structure Quiet (tag : List UInt8) : Prop where
  token : strcasecmp xmlLabelProfiles (labelName (labelPart tag)) = true →
    attribAt (labelPart tag) < (labelPart tag).length ∧ indexOf (text "token=") (attribPart (labelPart tag)) = none
  ended : ¬(tag.getLast? = some 47 ∧ cutsText (labelName (labelPart tag)) = true)

/-- A Profiles element that is read as what it is. -/
structure Told (t : Tag) : Prop where
  colon : spaceBeforeColon (labelPart t.visible) = false
  name : strcasecmp xmlLabelProfiles (labelName (labelPart t.visible)) = true
  space : attribAt (labelPart t.visible) < (labelPart t.visible).length
  token : ∃ value p q, t.token = some value ∧ value ≠ [] ∧ 34 ∉ value ∧ 39 ∉ value ∧
    indexOf (text "token=") (attribPart (labelPart t.visible)) = some p ∧ (q = 34 ∨ q = 39) ∧
    q :: (value ++ [q]) <+: (attribPart (labelPart t.visible)).drop (p + 6)

/-- What the passes read of a piece is what it is. -/
def Piece.Fit : Piece → Prop
  | .tag t => if t.isProfiles then Told t else Quiet t.visible
  | .markup first body _ _ => ∀ tag ∈ tags (60 :: first :: (body ++ [62])), Quiet tag ∧ ¬[60, 47] <:+: tag
  | _ => True

theorem Attr.text_bytes (a : Attr) : ∀ b ∈ a.text, b ≠ 0 ∧ b ≠ 60 := by
  have hquote : a.quote ≠ 0 ∧ a.quote ≠ 60 := by
    rcases a.quote_eq with h | h <;> rw [h] <;> decide
  intro b hb
  simp only [Attr.text, List.mem_append, List.mem_cons, List.not_mem_nil, or_false] at hb
  rcases hb with hb | hb | hb | rfl | hb | rfl | hb | rfl
  · exact isBlank_facts (a.sep_blank.2 b hb)
  · exact ⟨(isNameByte_facts (a.name_bytes.2 b hb)).1, (isNameByte_facts (a.name_bytes.2 b hb)).2.1⟩
  · exact isBlank_facts (a.before_blank b hb)
  · decide
  · exact isBlank_facts (a.after_blank b hb)
  · exact hquote
  · exact ⟨(a.value_bytes b hb).1, (a.value_bytes b hb).2.1⟩
  · exact hquote

theorem Tag.raw_bytes (t : Tag) : ∀ b ∈ t.raw, b ≠ 0 ∧ b ≠ 60 := by
  intro b hb
  simp only [Tag.raw, List.mem_append] at hb
  rcases hb with hb | hb | hb | hb
  · exact ⟨(isNameByte_facts (t.name_bytes.2 b hb)).1, (isNameByte_facts (t.name_bytes.2 b hb)).2.1⟩
  · obtain ⟨a, -, ha⟩ := List.mem_flatMap.mp hb
    exact a.text_bytes b ha
  · exact isBlank_facts (t.tail_blank b hb)
  · split at hb
    · rw [List.mem_singleton.mp hb]
      decide
    · cases hb

theorem Tag.opens_raw (t : Tag) (y : List UInt8) : opens 60 (t.raw ++ y) = true := by
  have hname := t.name_bytes
  rw [Tag.raw]
  cases h : t.name with
  | nil => exact absurd h hname.1
  | cons b name =>
    have hb := isNameByte_facts (hname.2 b (h ▸ List.mem_cons_self))
    simp [opens, hb.2.2]

/-- A start tag is one tag to the passes, up to its first `>`. -/
theorem Tag.tags_text (t : Tag) : tags (60 :: (t.raw ++ [62])) = [t.visible] := by
  have hvisible : ∃ r, t.raw ++ [62] = t.visible ++ 62 :: r ∧ 60 ∉ r := by
    have hraw : 60 ∉ t.raw := fun h => (t.raw_bytes 60 h).2 rfl
    have hsplit := List.takeWhile_append_dropWhile (p := (· != 62)) (l := t.raw)
    rcases dropWhile_bne_cases 62 t.raw with hdrop | ⟨r, hdrop⟩
    · rw [hdrop, List.append_nil] at hsplit
      exact ⟨[], by rw [Tag.visible, hsplit], List.not_mem_nil⟩
    · rw [hdrop] at hsplit
      refine ⟨r ++ [62], ?_, ?_⟩
      · rw [Tag.visible, ← List.cons_append, ← List.append_assoc, hsplit]
      · rw [← hsplit] at hraw
        simp only [List.mem_append, List.mem_cons, not_or] at hraw ⊢
        exact ⟨hraw.2.2, by decide, List.not_mem_nil⟩
  obtain ⟨r, hr, hr60⟩ := hvisible
  have hopens := t.opens_raw [62]
  rw [hr] at hopens ⊢
  have hgt : 62 ∉ t.visible := fun h => by simpa using List.mem_takeWhile_imp h
  have hzero : 0 ∉ t.visible := fun h => (t.raw_bytes 0 (List.takeWhile_subset _ h)).1 rfl
  rw [tags_cons_of_opens hopens hgt hzero, tags_of_notMem hr60]

/-! ## What the passes read of a response -/

theorem Piece.zero_notMem (p : Piece) : 0 ∉ p.text := by
  intro h
  cases p with
  | tag t =>
    rcases List.mem_cons.mp h with h | h
    · cases h
    · rcases List.mem_append.mp h with h | h
      · exact (t.raw_bytes 0 h).1 rfl
      · cases List.mem_singleton.mp h
  | close name blanks hname hblanks =>
    simp only [Piece.text, List.mem_cons, List.mem_append, List.not_mem_nil, or_false] at h
    rcases h with h | h | h | h | h
    · cases h
    · cases h
    · exact (isNameByte_facts (hname 0 h)).1 rfl
    · exact (isBlank_facts (hblanks 0 h)).1 rfl
    · cases h
  | chars bytes hbytes => exact (hbytes 0 h).1 rfl
  | markup first body hfirst hbody =>
    simp only [Piece.text, List.mem_cons, List.mem_append, List.not_mem_nil, or_false] at h
    rcases h with h | h | h | h
    · cases h
    · rcases hfirst with rfl | rfl <;> cases h
    · exact hbody h
    · cases h

theorem zero_notMem_render (doc : List Piece) : 0 ∉ render doc := by
  intro h
  obtain ⟨p, -, hp⟩ := List.mem_flatMap.mp h
  exact p.zero_notMem hp

/-- A piece ends before another tag begins. -/
theorem Piece.tags_append (p : Piece) (y : List UInt8) : tags (p.text ++ y) = tags p.text ++ tags y := by
  have hend : ∀ x, p.text = x ++ [62] → tags (p.text ++ y) = tags p.text ++ tags y := by
    intro x hx
    have hzero : 0 ∉ x := fun h => p.zero_notMem (hx ▸ List.mem_append_left _ h)
    rw [hx, List.append_assoc, List.singleton_append, Onvif.tags_append hzero]
  cases p with
  | tag t => exact hend (60 :: t.raw) rfl
  | close name blanks hname hblanks => exact hend (60 :: 47 :: (name ++ blanks)) (by simp [Piece.text])
  | chars bytes hbytes =>
    have hopen : 60 ∉ bytes := fun h => (hbytes 60 h).2 rfl
    rw [Piece.text, tags_append_of_notMem hopen, tags_of_notMem hopen]
    rfl
  | markup first body hfirst hbody => exact hend (60 :: first :: body) rfl

theorem tags_render (doc : List Piece) : tags (render doc) = doc.flatMap fun p => tags p.text := by
  induction doc with
  | nil => rfl
  | cons p doc ih =>
    rw [render, List.flatMap_cons, p.tags_append, List.flatMap_cons, ← ih]
    rfl

/-- What is not a start tag has no tags but those in markup. -/
theorem Piece.tags_close {name blanks : List UInt8} (hname : ∀ b ∈ name, isNameByte b = true)
    (hblanks : ∀ b ∈ blanks, isBlank b = true) : tags (Piece.close name blanks hname hblanks).text = [] := by
  have hopen : 60 ∉ 47 :: (name ++ (blanks ++ [62])) := by
    simp only [List.mem_cons, List.mem_append, List.not_mem_nil, or_false]
    rintro (h | h | h | h)
    · cases h
    · exact (isNameByte_facts (hname 60 h)).2.1 rfl
    · exact (isBlank_facts (hblanks 60 h)).2 rfl
    · cases h
  rw [Piece.text, tags_cons_of_not_opens rfl, tags_of_notMem hopen]

theorem Piece.tags_chars {bytes : List UInt8} (hbytes : ∀ b ∈ bytes, b ≠ 0 ∧ b ≠ 60) :
    tags (Piece.chars bytes hbytes).text = [] :=
  tags_of_notMem fun h => (hbytes 60 h).2 rfl

/-- The tags of a response have no `</` inside. -/
theorem Piece.plain {p : Piece} (h : p.Fit) : ∀ tag ∈ tags p.text, ¬[60, 47] <:+: tag := by
  intro tag htag
  cases p with
  | tag t =>
    rw [Piece.text, t.tags_text] at htag
    rw [List.mem_singleton.mp htag]
    intro hin
    have hmem : 60 ∈ t.visible := hin.subset List.mem_cons_self
    exact (t.raw_bytes 60 (List.takeWhile_subset _ hmem)).2 rfl
  | close name blanks hname hblanks =>
    rw [Piece.tags_close] at htag
    cases htag
  | chars bytes hbytes =>
    rw [Piece.tags_chars] at htag
    cases htag
  | markup first body hfirst hbody => exact (h tag htag).2

theorem plain_render {doc : List Piece} (h : ∀ p ∈ doc, p.Fit) : Plain (render doc) := by
  rw [Plain, cstr_of_notMem (zero_notMem_render doc), tags_render]
  intro tag htag
  obtain ⟨p, hp, htag⟩ := List.mem_flatMap.mp htag
  exact Piece.plain (h p hp) tag htag

/-- A label that is read as Profiles does not have its text ended. -/
theorem cutsText_of_profiles {name : List UInt8} (h : strcasecmp xmlLabelProfiles name = true) :
    cutsText name = false := by
  have hname : name.map toLower = xmlLabelProfiles.map toLower := eq_of_beq h
  simp only [cutsText, List.any_cons, List.any_nil, strcasecmp, hname]
  decide +kernel

/-- The token of a Profiles element is read as it is. -/
theorem Told.tokenOf_eq {t : Tag} (h : Told t) {l : Label} (hread : l.Read) (htag : l.tag = t.visible) :
    tokenOf l = t.token ∧ ∀ value ∈ t.token, value ≠ [] := by
  obtain ⟨value, p, q, hvalue, hne, hdouble, hsingle, hindex, hq, hprefix⟩ := h.token
  obtain ⟨more, hmore⟩ := hprefix
  have hlabel : l.label = labelPart t.visible := by rw [hread.label_eq, htag]
  have hstop : ∀ b ∈ value, (b != 34 && b != 39) = true := by
    intro b hb
    rw [Bool.and_eq_true, bne_iff_ne, bne_iff_ne]
    exact ⟨fun h => hdouble (h ▸ hb), fun h => hsingle (h ▸ hb)⟩
  have hbehind : (attribPart (labelPart t.visible)).drop (p + 7) = value ++ q :: more := by
    rw [← List.drop_drop (i := 1) (j := p + 6), ← hmore, List.cons_append, List.drop_one, List.tail_cons,
      List.append_assoc, List.singleton_append]
  refine ⟨?_, fun v hv => by cases hvalue.symm.trans hv; exact hne⟩
  rw [tokenOf, hlabel, if_pos h.name, attribOf, hlabel, if_pos h.space, scanToken, ← attribPart, hindex,
    Option.map_some, hbehind, List.takeWhile_append_of_pos hstop, List.takeWhile_cons_of_neg, List.append_nil, hvalue]
  rcases hq with rfl | rfl <;> decide

/-- Nothing is read of a tag that is quiet. -/
theorem Quiet.tokenOf_eq {l : Label} (hread : l.Read) (h : Quiet l.tag) : tokenOf l = none ∧ l.Fine := by
  have htoken : tokenOf l = none := by
    rw [tokenOf, attribOf, hread.label_eq]
    split
    · next hname =>
      obtain ⟨hspace, hnone⟩ := h.token hname
      rw [if_pos hspace, scanToken, ← attribPart, hnone]
      rfl
    · rfl
  refine ⟨htoken, ?_, fun token ht => ?_⟩
  · rw [hread.label_eq, hread.tlen_iff]
    exact h.ended
  · rw [htoken] at ht
    cases ht

/-- Quiet labels are fine, not stray, and have no tokens. -/
theorem quiet_labels {ls : List Label} (hread : ∀ l ∈ ls, l.Read) (h : ∀ l ∈ ls, Quiet l.tag) :
    ls.filterMap tokenOf = [] ∧ (∀ l ∈ ls, l.Fine) ∧ ls.countP Label.stray = 0 := by
  refine ⟨?_, fun l hl => (Quiet.tokenOf_eq (hread l hl) (h l hl)).2, ?_⟩
  · exact List.filterMap_eq_nil_iff.mpr fun l hl => (Quiet.tokenOf_eq (hread l hl) (h l hl)).1
  · rw [List.countP_eq_zero]
    intro l hl
    rw [Label.stray, Label.takes, (Quiet.tokenOf_eq (hread l hl) (h l hl)).1]
    exact Bool.false_ne_true

/-- The labels of a piece. -/
theorem Piece.labels_eq {p : Piece} (h : p.Fit)
    (hcarries : ∀ t, p = .tag t → t.isProfiles = true → ∃ token, t.token = some token ∧ token.length < 100)
    {ls : List Label} (hread : ∀ l ∈ ls, l.Read) (hls : ls.map Label.tag = tags p.text) :
    ls.filterMap tokenOf = p.tokens ∧ (∀ l ∈ ls, l.Fine) ∧ ls.countP Label.stray = 0 := by
  cases p with
  | tag t =>
    rw [Piece.text, t.tags_text] at hls
    obtain ⟨l, rfl, htag⟩ := List.map_eq_singleton_iff.mp hls
    have hl := hread l List.mem_cons_self
    rw [Piece.tokens]
    cases hprofiles : t.isProfiles with
    | false =>
      rw [Piece.Fit, hprofiles] at h
      exact quiet_labels hread fun l' hl' => by rw [List.mem_singleton.mp hl', htag]; exact h
    | true =>
      rw [Piece.Fit, hprofiles] at h
      have htold : Told t := h
      obtain ⟨htoken, hne⟩ := htold.tokenOf_eq hl htag
      obtain ⟨token, hsome, hlen⟩ := hcarries t rfl hprofiles
      refine ⟨?_, ?_, ?_⟩
      · rw [List.filterMap_cons, htoken, hsome]
        rfl
      · rintro l' hl'
        rw [List.mem_singleton.mp hl']
        refine ⟨?_, fun token' htoken' => ?_⟩
        · rw [hl.label_eq, htag, cutsText_of_profiles htold.name]
          exact fun h => Bool.false_ne_true h.2
        · rw [htoken] at htoken'
          refine ⟨hne token' htoken', ?_⟩
          cases hsome.symm.trans htoken'
          exact hlen
      · rw [List.countP_singleton, Label.stray, hl.label_eq, htag, htold.colon, Bool.and_false]
        rfl
  | close name blanks hname hblanks =>
    rw [Piece.tags_close, List.map_eq_nil_iff] at hls
    subst hls
    exact quiet_labels hread fun _ h => absurd h List.not_mem_nil
  | chars bytes hbytes =>
    rw [Piece.tags_chars, List.map_eq_nil_iff] at hls
    subst hls
    exact quiet_labels hread fun _ h => absurd h List.not_mem_nil
  | markup first body hfirst hbody =>
    refine quiet_labels hread fun l hl => (h l.tag ?_).1
    have hmem : l.tag ∈ ls.map Label.tag := List.mem_map_of_mem hl
    rwa [hls] at hmem

/-- The labels of a response. -/
theorem labels_doc {doc : List Piece} (hcarries : Carries doc) (hfit : ∀ p ∈ doc, p.Fit) {ls : List Label}
    (hread : ∀ l ∈ ls, l.Read) (hls : ls.map Label.tag = doc.flatMap fun p => tags p.text) :
    ls.filterMap tokenOf = tokens doc ∧ (∀ l ∈ ls, l.Fine) ∧ ls.countP Label.stray = 0 := by
  induction doc generalizing ls with
  | nil =>
    rw [List.flatMap_nil, List.map_eq_nil_iff] at hls
    subst hls
    exact quiet_labels hread fun _ h => absurd h List.not_mem_nil
  | cons p doc ih =>
    obtain ⟨hp, hdoc⟩ := List.forall_mem_cons.mp hfit
    rw [List.flatMap_cons] at hls
    obtain ⟨first, rest, rfl, hfirst, hrest⟩ := List.map_eq_append_iff.mp hls
    obtain ⟨hreadFirst, hreadRest⟩ := List.forall_mem_append.mp hread
    have hone := Piece.labels_eq hp (fun t ht => hcarries t (ht ▸ List.mem_cons_self)) hreadFirst hfirst
    have hmore := ih (fun t ht => hcarries t (List.mem_cons_of_mem p ht)) hdoc hreadRest hrest
    refine ⟨?_, List.forall_mem_append.mpr ⟨hone.2.1, hmore.2.1⟩, ?_⟩
    · rw [List.filterMap_append, hone.1, hmore.1, tokens, tokens, List.flatMap_cons]
    · rw [List.countP_append, hone.2.2, hmore.2.2]

theorem countP_takes (ls : List Label) : ls.countP Label.takes = (ls.filterMap tokenOf).length := by
  induction ls with
  | nil => rfl
  | cons l ls ih =>
    rw [List.countP_cons, List.filterMap_cons, ih, Label.takes]
    cases tokenOf l <;> rfl

/-- The tokens that are stored from a response whose pieces are read as what they are. -/
theorem getProfiles_render {doc : List Piece} (hcarries : Carries doc) (hfit : ∀ p ∈ doc, p.Fit) :
    Fits (render doc) ∧
      ∃ c, onvifMediaServiceGetProfiles 200 (some (render doc)) = some c ∧ c.tokens = tokens doc := by
  have hplain := plain_render hfit
  have hls := labels_tags hplain
  rw [cstr_of_notMem (zero_notMem_render doc), tags_render] at hls
  obtain ⟨htokens, hfine, hstray⟩ := labels_doc hcarries hfit (labels_read _) hls
  have hfits : Fits (render doc) := (fits_iff_of_plain hplain).mpr ⟨hfine, by rw [hstray]; exact Nat.zero_le _⟩
  refine ⟨hfits, ?_⟩
  rcases Nat.eq_zero_or_pos (counted (render doc)) with hzero | hpos
  · have hnone : (labels (render doc)).filterMap tokenOf = [] := by
      have htakes := hfits.takes
      rw [hzero, countP_takes] at htakes
      exact List.length_eq_zero_iff.mp (Nat.le_zero.mp htakes)
    refine ⟨_, onvifMediaServiceGetProfiles_of_zero hzero, ?_⟩
    rw [← htokens, hnone]
    rfl
  · obtain ⟨c, hc, -, -, hstored⟩ := getProfiles_of_fits hfits hpos
    exact ⟨c, hc, hstored.trans htokens⟩

/-! ## The extraction of the profiles -/

/-- An attribute behind one space, with its value in double quotes. -/
def Attr.plain (name value : List UInt8) (hname : name ≠ [] ∧ ∀ b ∈ name, isNameByte b = true)
    (hvalue : ∀ b ∈ value, b ≠ 0 ∧ b ≠ 60 ∧ b ≠ 34) : Attr where
  sep := [32]
  name := name
  before := []
  after := []
  quote := 34
  value := value
  sep_blank := ⟨List.cons_ne_nil _ _, List.forall_mem_singleton.mpr rfl⟩
  name_bytes := hname
  before_blank := fun _ h => nomatch h
  after_blank := fun _ h => nomatch h
  quote_eq := .inl rfl
  value_bytes := hvalue

/-- `<trt:Profiles fixed="true" token="profile_1">`. -/
def cameraTag : Tag where
  name := text "trt:Profiles"
  attrs := [.plain (text "fixed") (text "true") (by decide +kernel) (by decide +kernel),
    .plain (text "token") (text "profile_1") (by decide +kernel) (by decide +kernel)]
  tail := []
  self := false
  name_bytes := by decide +kernel
  tail_blank := fun _ h => nomatch h

/-- The tag with its end tag behind it. -/
def cameraResponse : List Piece :=
  [.tag cameraTag, .close (text "trt:Profiles") [] (by decide +kernel) fun _ h => nomatch h]

/-- `<Profiles xmlns:a="u" token="p"/>`. -/
def defaultTag : Tag where
  name := text "Profiles"
  attrs := [.plain (text "xmlns:a") (text "u") (by decide +kernel) (by decide +kernel),
    .plain (text "token") (text "p") (by decide +kernel) (by decide +kernel)]
  tail := []
  self := true
  name_bytes := by decide +kernel
  tail_blank := fun _ h => nomatch h

end ProgrammingPath.Onvif
