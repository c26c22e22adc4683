import ProgrammingPath.Service.OnvifProfiles

/-!
# What the two passes take for a Profiles element

The second pass takes a label for Profiles when its name is, and a `token=` follows. The first pass counts
it too, unless a space is before the colon. So where no label has a `</` inside, and both passes meet the
same tags, the profiles suffice as long as the labels that are only taken are no more than the tags that
are only counted.
-/

namespace ProgrammingPath.Onvif

open ProgrammingPath.Lib

/-! ## The names that the two passes read -/

/-- Whether a space is before the first colon. -/
def spaceBeforeColon (label : List UInt8) : Bool :=
  match strchr 58 label with
  | some colon => (label.take colon).contains 32
  | none => false

theorem spaceBeforeColon_append {u : List UInt8} (hu : 58 ∉ u) (hzero : 0 ∉ u) (post : List UInt8) :
    spaceBeforeColon (u ++ 58 :: post) = u.contains 32 := by
  rw [spaceBeforeColon, strchr_append hu hzero]
  dsimp only
  rw [List.take_left]

theorem strchrLen_append {v : UInt8} {x : List UInt8} (hx : v ∉ x) (y : List UInt8) :
    strchrLen (x ++ v :: y) v = some x.length := by
  induction x with
  | nil => simp [strchrLen, List.idxOf?_cons]
  | cons c x ih =>
    obtain ⟨hc, hx⟩ := List.ne_and_not_mem_of_not_mem_cons hx
    rw [strchrLen] at ih ⊢
    rw [List.cons_append, List.idxOf?_cons, if_neg (by simpa using Ne.symm hc), ih hx]
    rfl

theorem strchrLen_eq_none {v : UInt8} {x : List UInt8} (hx : v ∉ x) : strchrLen x v = none :=
  List.idxOf?_eq_none_iff.mpr hx

/-- A prefix with its colon, or none. -/
def IsPrefix (pre more : List UInt8) : Prop := pre = [] ∧ 58 ∉ more ∨ ∃ u, pre = u ++ [58] ∧ 58 ∉ u

theorem IsPrefix.start {pre more : List UInt8} (h : IsPrefix pre more) :
    ((strchrLen (pre ++ more) 58).map (· + 1)).getD 0 = pre.length := by
  rcases h with ⟨rfl, hmore⟩ | ⟨u, rfl, hu⟩
  · rw [List.nil_append, strchrLen_eq_none hmore]
    rfl
  · rw [List.append_assoc, List.singleton_append, strchrLen_append hu, List.length_append]
    rfl

theorem IsPrefix.start' {pre more : List UInt8} (h : IsPrefix pre more) (hzero : 0 ∉ pre ++ more) :
    ((strchr 58 (pre ++ more)).map (· + 1)).getD 0 = pre.length := by
  rcases h with ⟨rfl, hmore⟩ | ⟨u, rfl, hu⟩
  · rw [List.nil_append, strchr_of_notMem hmore]
    rfl
  · rw [List.append_assoc, List.singleton_append, strchr_append hu, List.length_append]
    · rfl
    · exact fun h => hzero (List.mem_append_left _ (List.mem_append_left _ h))

/-- What may follow a name: nothing, or a space. -/
def EndsName (t : List UInt8) : Prop := t = [] ∨ ∃ r, t = 32 :: r

/-- The first pass reads the name between the colon and the space. -/
theorem countsNode_eq {pre w t : List UInt8} (hpre : IsPrefix pre (w ++ t)) (hspace : 32 ∉ pre ++ w)
    (ht : EndsName t) (hw : w ≠ []) : countsNode (pre ++ (w ++ t)) = startsCI w xmlLabelProfiles := by
  have hend : (strchrLen (pre ++ (w ++ t)) 32).getD (pre ++ (w ++ t)).length = (pre ++ w).length := by
    rcases ht with rfl | ⟨r, rfl⟩
    · rw [List.append_nil, strchrLen_eq_none hspace]
      rfl
    · rw [← List.append_assoc, strchrLen_append hspace]
      rfl
  have hlt : pre.length < (pre ++ w).length := by
    have hpos := List.length_pos_iff.mpr hw
    rw [List.length_append]
    omega
  rw [countsNode, hpre.start, hend, decide_eq_true hlt, ← List.append_assoc, List.take_left, List.drop_left]
  exact Bool.true_and _

theorem attribAt_append {x t : List UInt8} (hx : 32 ∉ x) (hne : x ≠ []) (hzero : 0 ∉ x ++ t) (ht : EndsName t) :
    attribAt (x ++ t) = x.length := by
  cases x with
  | nil => exact absurd rfl hne
  | cons b x =>
    have hx := List.not_mem_of_not_mem_cons hx
    rw [List.cons_append, attribAt, List.length_cons]
    congr 1
    rcases ht with rfl | ⟨r, rfl⟩
    · rw [List.append_nil, strchr_of_notMem hx]
      rfl
    · rw [strchr_append hx]
      · rfl
      · exact fun h => hzero (List.mem_append_left _ (List.mem_cons_of_mem b h))

/-- The second pass reads the same name if no space is before the colon. -/
theorem labelName_eq {pre w t : List UInt8} (hpre : IsPrefix pre (w ++ t)) (hspace : 32 ∉ pre ++ w)
    (ht : EndsName t) (hne : pre ++ w ≠ []) (hzero : 0 ∉ pre ++ (w ++ t)) :
    labelName (pre ++ (w ++ t)) = w := by
  have hstart := hpre.start' hzero
  rw [← List.append_assoc] at hstart hzero ⊢
  have hstop := attribAt_append hspace hne hzero ht
  rw [labelName, hstart, hstop, if_pos, List.take_left, List.drop_left]
  rw [List.length_append]
  exact Nat.le_add_right _ _

/-- A label splits at its first space. -/
theorem takeWhile_endsName (l : List UInt8) :
    32 ∉ l.takeWhile (· != 32) ∧ EndsName (l.dropWhile (· != 32)) := by
  constructor
  · intro h
    simpa using List.mem_takeWhile_imp h
  · exact dropWhile_bne_cases 32 l

theorem strcasecmp_length {lit str : List UInt8} (h : strcasecmp lit str = true) : str.length = lit.length := by
  have hlen := congrArg List.length (eq_of_beq h)
  rwa [List.length_map, List.length_map] at hlen

/-- A label that the second pass takes for Profiles: a space is before its colon, or the name is where the
first pass reads it. -/
theorem label_cases {label : List UInt8} (hzero : 0 ∉ label)
    (hname : strcasecmp xmlLabelProfiles (labelName label) = true) :
    (∃ u post, label = u ++ 58 :: post ∧ 58 ∉ u ∧ 32 ∈ u) ∨
      ∃ pre w t, label = pre ++ (w ++ t) ∧ IsPrefix pre (w ++ t) ∧ 32 ∉ pre ++ w ∧ EndsName t ∧
        strcasecmp xmlLabelProfiles w = true := by
  have hempty : strcasecmp xmlLabelProfiles [] = false := by decide +kernel
  by_cases hcolon : 58 ∈ label
  · obtain ⟨u, post, rfl, hu⟩ := List.eq_append_cons_of_mem hcolon
    by_cases hspace : 32 ∈ u
    · exact .inl ⟨u, post, rfl, hu, hspace⟩
    · obtain ⟨hw, ht⟩ := takeWhile_endsName post
      have hsplit : u ++ 58 :: post =
          (u ++ [58]) ++ (post.takeWhile (· != 32) ++ post.dropWhile (· != 32)) := by
        rw [List.takeWhile_append_dropWhile, List.append_assoc, List.singleton_append]
      have hpre : IsPrefix (u ++ [58]) (post.takeWhile (· != 32) ++ post.dropWhile (· != 32)) :=
        .inr ⟨u, rfl, hu⟩
      have hnospace : 32 ∉ u ++ [58] ++ post.takeWhile (· != 32) := by
        simp only [List.mem_append, List.mem_singleton, not_or]
        exact ⟨⟨hspace, by decide⟩, hw⟩
      rw [hsplit] at hzero hname
      rw [labelName_eq hpre hnospace ht (by simp) hzero] at hname
      exact .inr ⟨_, _, _, hsplit, hpre, hnospace, ht, hname⟩
  · obtain ⟨hw, ht⟩ := takeWhile_endsName label
    have hsplit : label = [] ++ (label.takeWhile (· != 32) ++ label.dropWhile (· != 32)) := by
      rw [List.takeWhile_append_dropWhile, List.nil_append]
    have hpre : IsPrefix [] (label.takeWhile (· != 32) ++ label.dropWhile (· != 32)) := by
      rw [List.takeWhile_append_dropWhile]
      exact .inl ⟨rfl, hcolon⟩
    by_cases hne : label.takeWhile (· != 32) = []
    · exfalso
      rw [hne, List.nil_append, List.nil_append] at hsplit
      -- the label is empty or begins with a space, and its name with it
      rcases ht with ht | ⟨r, ht⟩
      · rw [hsplit, ht] at hname
        exact absurd (hempty.symm.trans hname) Bool.false_ne_true
      · rw [ht] at hsplit
        have hhead : ∃ more, labelName label = 32 :: more := by
          rw [labelName, strchr_of_notMem hcolon, hsplit]
          exact ⟨_, rfl⟩
        obtain ⟨more, hmore⟩ := hhead
        have hcmp := eq_of_beq (hmore ▸ hname)
        have hfirst := congrArg List.head? hcmp
        have hletter : (xmlLabelProfiles.map toLower).head? = some 112 := by decide +kernel
        rw [List.map_cons, List.head?_cons, hletter] at hfirst
        exact absurd (Option.some.inj hfirst) (by decide)
    · have hname' := hname
      rw [hsplit] at hzero hname'
      rw [labelName_eq hpre hw ht hne hzero] at hname'
      exact .inr ⟨_, _, _, hsplit, hpre, hw, ht, hname'⟩

theorem nodeOf_cases (tag : List UInt8) :
    nodeOf tag = labelPart tag ∨ ∃ node, labelPart tag = node ++ [63] ∧ nodeOf tag = node := by
  rw [nodeOf, labelPart]
  by_cases hslash : tag.getLast? = some 47
  · rw [if_pos hslash, if_pos (.inl hslash)]
    exact .inl rfl
  · rw [if_neg hslash]
    by_cases hmark : tag.getLast? = some 63
    · obtain ⟨node, rfl⟩ := List.getLast?_eq_some_iff.mp hmark
      rw [if_pos (.inr hmark), List.dropLast_concat]
      exact .inr ⟨node, rfl, rfl⟩
    · rw [if_neg (not_or.mpr ⟨hslash, hmark⟩)]
      exact .inl rfl

/-- A node loses at most the question mark at the end of its label. -/
theorem nodeOf_append {tag x y : List UInt8} {c : UInt8} (h : labelPart tag = x ++ c :: y) (hc : c ≠ 63) :
    ∃ y', nodeOf tag = x ++ c :: y' ∧ y' <+: y := by
  rcases nodeOf_cases tag with hnode | ⟨node, hlabel, hnode⟩
  · exact ⟨y, hnode.trans h, List.prefix_rfl⟩
  · rw [h] at hlabel
    rcases List.eq_nil_or_concat y with rfl | ⟨y', b, rfl⟩
    · have hlast := (List.append_inj' hlabel rfl).2
      exact absurd (List.cons.inj hlast).1 hc
    · rw [List.concat_eq_append, ← List.cons_append, ← List.append_assoc] at hlabel
      rw [List.concat_eq_append]
      exact ⟨y', hnode.trans (List.append_inj' hlabel rfl).1.symm, List.prefix_append y' [b]⟩

theorem EndsName.of_prefix {t t' : List UInt8} (ht : EndsName t) (h : t' <+: t) : EndsName t' := by
  rcases ht with rfl | ⟨r, rfl⟩
  · exact .inl (List.prefix_nil.mp h)
  · cases t' with
    | nil => exact .inl rfl
    | cons b t' => exact .inr ⟨t', by rw [(List.cons_prefix_cons.mp h).1]⟩

theorem IsPrefix.of_prefix {pre w t t' : List UInt8} (hpre : IsPrefix pre (w ++ t)) (h : t' <+: t) :
    IsPrefix pre (w ++ t') := by
  refine hpre.imp_left fun ⟨hnil, hcolon⟩ => ⟨hnil, fun hin => hcolon ?_⟩
  exact (List.prefix_append_right_inj w |>.mpr h).subset hin

/-- A tag that the second pass takes for Profiles is counted unless a space is before its colon. -/
theorem countsNode_iff {tag : List UInt8} (hzero : 0 ∉ labelPart tag)
    (hname : strcasecmp xmlLabelProfiles (labelName (labelPart tag)) = true) :
    countsNode (nodeOf tag) = true ↔ spaceBeforeColon (labelPart tag) = false := by
  rcases label_cases hzero hname with ⟨u, post, hlabel, hu, hspace⟩ | ⟨pre, w, t, hlabel, hpre, hspace, ht, hw⟩
  · rw [hlabel] at hzero
    have hblank : spaceBeforeColon (labelPart tag) = true := by
      rw [hlabel, spaceBeforeColon_append hu fun h => hzero (List.mem_append_left _ h)]
      exact List.contains_iff_mem.mpr hspace
    obtain ⟨post', hnode, -⟩ := nodeOf_append hlabel (by decide)
    obtain ⟨a, b, rfl, ha⟩ := List.eq_append_cons_of_mem hspace
    have hend : strchrLen (a ++ 32 :: b ++ 58 :: post') 32 = some a.length := by
      rw [List.append_assoc, List.cons_append, strchrLen_append ha]
    have hcounts : countsNode (nodeOf tag) = false := by
      rw [hnode, countsNode, strchrLen_append hu, hend]
      dsimp only [Option.map_some, Option.getD_some]
      rw [decide_eq_false, Bool.false_and]
      rw [List.length_append]
      omega
    rw [hblank, hcounts]
    decide
  · -- the name has a last letter, so the node has all of it
    have hlen := strcasecmp_length hw
    obtain ⟨w', c, rfl⟩ : ∃ w' c, w = w' ++ [c] := by
      rcases List.eq_nil_or_concat w with rfl | ⟨w', c, rfl⟩
      · cases hlen
      · exact ⟨w', c, List.concat_eq_append⟩
    have hc : c ≠ 63 := by
      rintro rfl
      have hlast := congrArg List.getLast? (eq_of_beq hw)
      have hletter : (xmlLabelProfiles.map toLower).getLast? = some 115 := by decide +kernel
      rw [List.map_append, List.map_singleton, List.getLast?_concat, hletter] at hlast
      exact absurd (Option.some.inj hlast) (by decide)
    have hsplit : labelPart tag = (pre ++ w') ++ c :: t := by
      rw [hlabel, List.append_assoc, List.append_assoc, List.singleton_append]
    obtain ⟨t', hnode, hprefix⟩ := nodeOf_append hsplit hc
    have hnode' : nodeOf tag = pre ++ (w' ++ [c] ++ t') := by
      rw [hnode, List.append_assoc, List.append_assoc, List.singleton_append]
    have hstarts : startsCI (w' ++ [c]) xmlLabelProfiles = true := by
      have hfull : xmlLabelProfiles.take (w' ++ [c]).length = xmlLabelProfiles := by
        rw [hlen, List.take_length]
      rw [startsCI_iff, hfull]
      exact (eq_of_beq hw).symm
    rw [hnode', countsNode_eq (hpre.of_prefix hprefix) hspace (ht.of_prefix hprefix) (by simp), hstarts]
    refine iff_of_true rfl ?_
    rw [hlabel]
    rcases hpre with ⟨rfl, hcolon⟩ | ⟨u, rfl, hu⟩
    · rw [List.nil_append, spaceBeforeColon, strchr_of_notMem hcolon]
    · rw [hlabel] at hzero
      simp only [List.mem_append, not_or] at hzero hspace
      rw [List.append_assoc, List.singleton_append, spaceBeforeColon_append hu hzero.1.1]
      exact Bool.eq_false_iff.mpr fun h => hspace.1.1 (List.contains_iff_mem.mp h)

/-! ## Texts whose tags are plain -/

/-- No `</` is inside a tag. -/
def Plain (xmlstr : List UInt8) : Prop := ∀ tag ∈ tags (cstr xmlstr), ¬[60, 47] <:+: tag

/-- The callback writes a NUL over the `<` of an end tag, or where there is one already. -/
theorem cutText_cutOf {l : Label} {t : List UInt8} (hended : l.Ended) (h : CutOf t l.behind) :
    CutOf t (cutText l) := by
  rw [cutText]
  split
  · next n hn =>
    split
    · rcases hended n hn with hend | ⟨r, hr⟩
      · rwa [List.set_eq_of_length_le (Nat.le_of_eq hend.symm)]
      · exact h.set hr
    · exact h
  · exact h

/-- Both passes meet the same tags. -/
theorem labels_tags {xmlstr : List UInt8} (h : Plain xmlstr) :
    (labels xmlstr).map Label.tag = tags (cstr xmlstr) :=
  labelsLoop_of_cutOf (fun _ _ => cutText_cutOf) (.refl _) (zero_notMem_cstr xmlstr) h (Nat.lt_succ_self _)

theorem labels_read (xmlstr : List UInt8) : ∀ l ∈ labels xmlstr, l.Read := labelsLoop_read

/-- Taken by the second pass, but not counted by the first. -/
def Label.stray (l : Label) : Bool := l.takes && spaceBeforeColon l.label

/-- Counted by the first pass, but not taken by the second. -/
def Label.idle (l : Label) : Bool := countsNode (nodeOf l.tag) && !l.takes

theorem Label.takes_name {l : Label} (h : l.takes = true) :
    strcasecmp xmlLabelProfiles (labelName l.label) = true := by
  rw [Label.takes, tokenOf] at h
  split at h
  · next hname => exact hname
  · cases h

theorem Label.stray_eq {l : Label} (hread : l.Read) :
    l.stray = (l.takes && !countsNode (nodeOf l.tag)) := by
  rw [Label.stray]
  cases htakes : l.takes with
  | false => rfl
  | true =>
    have hname := Label.takes_name htakes
    have hzero := hread.zero
    rw [hread.label_eq] at hname hzero ⊢
    rw [Bool.true_and, Bool.true_and, Bool.eq_iff_iff, Bool.not_eq_true', ← Bool.not_eq_true,
      countsNode_iff hzero hname, Bool.not_eq_false]

/-- What two ways of counting have in common does not matter for which counts more. -/
theorem countP_le_iff {α : Type} (p q : α → Bool) (l : List α) :
    l.countP p ≤ l.countP q ↔ (l.countP fun a => p a && !q a) ≤ l.countP fun a => q a && !p a := by
  have hsum : l.countP p + (l.countP fun a => q a && !p a) = l.countP q + l.countP fun a => p a && !q a := by
    induction l with
    | nil => rfl
    | cons a l ih =>
      simp only [List.countP_cons]
      cases p a <;> cases q a <;> simp <;> omega
  omega

/-- Where no tag has a `</` inside, the tags suffice as long as the stray ones are no more than the idle
ones. -/
theorem fits_iff_of_plain {xmlstr : List UInt8} (h : Plain xmlstr) :
    Fits xmlstr ↔ (∀ l ∈ labels xmlstr, l.Fine) ∧
      (labels xmlstr).countP Label.stray ≤ (labels xmlstr).countP Label.idle := by
  have hcounted : counted xmlstr = (labels xmlstr).countP fun l => countsNode (nodeOf l.tag) := by
    rw [counted, ← labels_tags h, List.countP_map]
    rfl
  have hstray : (labels xmlstr).countP Label.stray =
      (labels xmlstr).countP fun l => l.takes && !countsNode (nodeOf l.tag) := by
    apply List.countP_congr
    intro l hl
    rw [Label.stray_eq (labels_read xmlstr l hl)]
  rw [hstray]
  constructor
  · intro hfits
    have htakes := hfits.takes
    rw [hcounted] at htakes
    exact ⟨hfits.fine, (countP_le_iff _ _ _).mp htakes⟩
  · rintro ⟨hfine, hle⟩
    refine ⟨hfine, ?_⟩
    rw [hcounted]
    exact (countP_le_iff _ _ _).mpr hle

end ProgrammingPath.Onvif
