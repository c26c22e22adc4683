import ProgrammingPath.Lib.CString

/-!
# The label walkers of the ONVIF client (`Onvif_HttpDigest.c`)

`xml_label` and `xml_label2` go through a response and call back for every `<` that no slash follows, with
what stands between it and the next `>`. `xml_label` writes NULs into the text, at the end of each label;
and its callback may write one more, where `xml_findend` found the end tag. Such a cut hides an end tag,
so it does not change the labels that the walker meets later, unless there is a `</` inside a label.
-/

namespace ProgrammingPath.Onvif

open ProgrammingPath.Lib

/-! ## The source -/

/-- `strchr` for a byte other than NUL, as an offset. -/
def strchr (b : UInt8) : List UInt8 → Option Nat
  | [] => none
  | c :: rest => if c = b then some 0 else if c = 0 then none else (strchr b rest).map (· + 1)

/-- The loop of `xml_findend`. `skip` is how many of the bytes it has stepped over already: two for the
`</` of another tag, and one more. -/
def xmlFindendLoop (labelname : List UInt8) : Nat → List UInt8 → Option Nat
  | _, [] => none
  | skip + 1, _ :: rest => (xmlFindendLoop labelname skip rest).map (· + 1)
  | 0, b :: rest =>
    if b = 60 ∧ rest.head? = some 47 then
      if labelname <+: rest.drop 1 then some 0 else (xmlFindendLoop labelname 2 rest).map (· + 1)
    else (xmlFindendLoop labelname 0 rest).map (· + 1)

/-- `xml_findend`, as an offset: where the end tag of `labelname` stands. -/
def xmlFindend (xmlstr labelname : List UInt8) : Option Nat := xmlFindendLoop labelname 0 (cstr xmlstr)

/-- What `xml_label` gives to its callback. -/
structure Label where
  /-- `xmllabel`, `llen` bytes. -/
  label : List UInt8
  /-- What is in memory behind the NUL that ends the label, up to the end of the text. -/
  behind : List UInt8
  /-- `tlen`, the length of `txt`, which begins where `behind` does; `none` if the label ends with a slash:
  then `txt` is `""` and `txt_e` is `NULL`. -/
  tlen : Option Nat
  deriving DecidableEq

/-- Whether a tag begins at `b` that is not an end tag. -/
def opens (b : UInt8) (rest : List UInt8) : Bool := b == 60 && !rest.isEmpty && rest.head? != some 47

/-- The label that begins with `p`, `none` if no `>` ends it. -/
def labelAt (p : List UInt8) : Option Label :=
  match strchr 62 p with
  | none => none
  | some lend =>
    let raw := p.take lend
    if raw.getLast? = some 47 then some ⟨raw.dropLast, p.drop lend, none⟩
    else
      let txt := p.drop (lend + 1)
      some ⟨raw, txt, some ((xmlFindend txt (raw.takeWhile (· != 32))).getD txt.length)⟩

/-- The loop of `xml_label`: `callback` returns what it made of its own data, and of the bytes behind the
label. `none` when `fuel` does not last. -/
def xmlLabelLoop {σ : Type} (callback : σ → Label → σ × List UInt8) : Nat → List UInt8 → σ → Option σ
  | 0, _, _ => none
  | _ + 1, [], user => some user
  | fuel + 1, b :: p, user =>
    if opens b p then
      match labelAt p with
      | none => xmlLabelLoop callback fuel p user
      | some l => xmlLabelLoop callback fuel (0 :: (callback user l).2) (callback user l).1
    else xmlLabelLoop callback fuel p user

/-- `xml_label`. -/
def xmlLabel {σ : Type} (xmlstr : List UInt8) (callback : σ → Label → σ × List UInt8) (user : σ) :
    Option σ :=
  xmlLabelLoop callback ((cstr xmlstr).length + 1) (cstr xmlstr) user

/-- What `xml_label2` gives to its callback. -/
structure Node where
  /-- From `node_start` to `node_end`. -/
  node : List UInt8
  /-- What is in memory from `txt_s` on, if it is not `NULL`. -/
  txt : Option (List UInt8)
  txtlen : Nat

/-- An element without the slash or the question mark at its end. -/
def nodeOf (raw : List UInt8) : List UInt8 :=
  if raw.getLast? = some 47 ∨ raw.getLast? = some 63 then raw.dropLast else raw

/-- The element that begins with `p`, `none` if no `>` ends it. -/
def nodeAt (p : List UInt8) : Option Node :=
  match strchr 62 p with
  | none => none
  | some lend =>
    let raw := p.take lend
    if raw.getLast? = some 47 ∨ raw.getLast? = some 63 then some ⟨nodeOf raw, none, 0⟩
    else
      let txt := (p.drop (lend + 1)).dropWhile fun b => b == 10 || b == 13 || b == 32
      some ⟨nodeOf raw, some txt, (indexOf (60 :: 47 :: raw.takeWhile (· != 32)) txt).getD 0⟩

/-- The loop of `xml_label2`. -/
def xmlLabel2Loop {σ : Type} (callback : σ → Node → σ) : Nat → List UInt8 → σ → Option σ
  | 0, _, _ => none
  | _ + 1, [], ctx => some ctx
  | fuel + 1, b :: p, ctx =>
    if opens b p then
      match nodeAt p with
      | none => xmlLabel2Loop callback fuel p ctx
      | some n => xmlLabel2Loop callback fuel (p.drop n.node.length) (callback ctx n)
    else xmlLabel2Loop callback fuel p ctx

/-- `xml_label2`. -/
def xmlLabel2 {σ : Type} (xmlstr : List UInt8) (callback : σ → Node → σ) (ctx : σ) : Option σ :=
  xmlLabel2Loop callback ((cstr xmlstr).length + 1) (cstr xmlstr) ctx

/-! ## The tags of a text -/

/-- What stands between each `<` that no slash follows and the next `>`; `skip` bytes belong to the tag
before. -/
def tagsFrom : Nat → List UInt8 → List (List UInt8)
  | _, [] => []
  | skip + 1, _ :: rest => tagsFrom skip rest
  | 0, b :: rest =>
    if opens b rest then
      match strchr 62 rest with
      | none => tagsFrom 0 rest
      | some lend => rest.take lend :: tagsFrom lend rest
    else tagsFrom 0 rest

def tags (text : List UInt8) : List (List UInt8) := tagsFrom 0 text

theorem strchr_eq_some {b : UInt8} {mem : List UInt8} {k : Nat} (h : strchr b mem = some k) :
    ∃ l r, mem = l ++ b :: r ∧ l.length = k ∧ b ∉ l ∧ 0 ∉ l := by
  induction mem generalizing k with
  | nil => cases h
  | cons c rest ih =>
    rw [strchr] at h
    split at h
    · next hc =>
      cases h
      exact ⟨[], rest, by rw [hc]; rfl, rfl, List.not_mem_nil, List.not_mem_nil⟩
    · next hc =>
      split at h
      · cases h
      · next hzero =>
        obtain ⟨j, hj, rfl⟩ := Option.map_eq_some_iff.mp h
        obtain ⟨l, r, rfl, hlen, hb, hl⟩ := ih hj
        refine ⟨c :: l, r, rfl, by rw [List.length_cons, hlen], ?_, ?_⟩
        · exact List.not_mem_cons_of_ne_of_not_mem (Ne.symm hc) hb
        · exact List.not_mem_cons_of_ne_of_not_mem (Ne.symm hzero) hl

theorem strchr_append {b : UInt8} {l : List UInt8} (hb : b ∉ l) (hl : 0 ∉ l) (r : List UInt8) :
    strchr b (l ++ b :: r) = some l.length := by
  induction l with
  | nil => exact if_pos rfl
  | cons c l ih =>
    obtain ⟨hc, hb⟩ := List.ne_and_not_mem_of_not_mem_cons hb
    obtain ⟨hzero, hl⟩ := List.ne_and_not_mem_of_not_mem_cons hl
    rw [List.cons_append, strchr, if_neg (Ne.symm hc), if_neg (Ne.symm hzero), ih hb hl]
    rfl

theorem strchr_of_notMem {b : UInt8} {mem : List UInt8} (h : b ∉ mem) : strchr b mem = none := by
  induction mem with
  | nil => rfl
  | cons c rest ih =>
    obtain ⟨hc, hrest⟩ := List.ne_and_not_mem_of_not_mem_cons h
    rw [strchr, if_neg (Ne.symm hc), ih hrest]
    split <;> rfl

theorem strchr_isSome {b : UInt8} {mem : List UInt8} (hmem : 0 ∉ mem) (h : b ∈ mem) :
    ∃ k, strchr b mem = some k := by
  obtain ⟨l, r, rfl, hb⟩ := List.eq_append_cons_of_mem h
  exact ⟨l.length, strchr_append hb (fun hl => hmem (List.mem_append_left _ hl)) r⟩

theorem opens_ne {b : UInt8} {rest : List UInt8} (h : b ≠ 60) : opens b rest = false := by
  simp [opens, h]

theorem tagsFrom_eq_drop (skip : Nat) (l : List UInt8) : tagsFrom skip l = tags (l.drop skip) := by
  induction l generalizing skip with
  | nil => rw [List.drop_nil]; cases skip <;> rfl
  | cons b rest ih =>
    cases skip with
    | zero => rfl
    | succ skip => rw [tagsFrom, ih, List.drop_succ_cons]

theorem tags_cons_of_not_opens {b : UInt8} {rest : List UInt8} (h : opens b rest = false) :
    tags (b :: rest) = tags rest := by
  rw [tags, tagsFrom, h]
  rfl

/-- A tag that ends. -/
theorem tags_cons_of_opens {b : UInt8} {raw r : List UInt8} (h : opens b (raw ++ 62 :: r) = true)
    (hraw : 62 ∉ raw) (hzero : 0 ∉ raw) : tags (b :: (raw ++ 62 :: r)) = raw :: tags r := by
  rw [tags, tagsFrom, if_pos h, strchr_append hraw hzero]
  dsimp only
  rw [tagsFrom_eq_drop, List.take_left, List.drop_left, tags_cons_of_not_opens (opens_ne (by decide))]

/-- A tag that does not end. -/
theorem tags_cons_of_none {b : UInt8} {rest : List UInt8} (h : strchr 62 rest = none) :
    tags (b :: rest) = tags rest := by
  rw [tags, tagsFrom, h]
  split <;> rfl

theorem opens_append {b : UInt8} {x : List UInt8} (hx : x ≠ []) (y : List UInt8) :
    opens b (x ++ y) = opens b x := by
  cases x with
  | nil => exact absurd rfl hx
  | cons c x => rfl

theorem tags_append_of_notMem {x : List UInt8} (hx : 60 ∉ x) (y : List UInt8) : tags (x ++ y) = tags y := by
  induction x with
  | nil => rfl
  | cons b x ih =>
    obtain ⟨hb, hx⟩ := List.ne_and_not_mem_of_not_mem_cons hx
    rw [List.cons_append, tags_cons_of_not_opens (opens_ne (Ne.symm hb)), ih hx]

theorem tags_of_notMem {x : List UInt8} (hx : 60 ∉ x) : tags x = [] := by
  rw [← List.append_nil x, tags_append_of_notMem hx]
  rfl

/-- No tag reaches over a `>`. -/
theorem tags_append {x : List UInt8} (hzero : 0 ∉ x) (y : List UInt8) :
    tags (x ++ 62 :: y) = tags (x ++ [62]) ++ tags y := by
  have hgt : ∀ r, tags (62 :: r) = tags r := fun r => tags_cons_of_not_opens (opens_ne (by decide))
  induction hn : x.length using Nat.strong_induction_on generalizing x with
  | _ n ih =>
    cases x with
    | nil =>
      rw [List.nil_append, List.nil_append, hgt, hgt]
      rfl
    | cons b x =>
      have hx : 0 ∉ x := List.not_mem_of_not_mem_cons hzero
      have hsame : opens b (x ++ 62 :: y) = opens b (x ++ [62]) := by
        rw [List.append_cons, opens_append (by simp)]
      rw [List.length_cons] at hn
      rw [List.cons_append, List.cons_append]
      cases hopens : opens b (x ++ [62]) with
      | false =>
        rw [tags_cons_of_not_opens hopens, tags_cons_of_not_opens (hsame.trans hopens)]
        exact ih x.length (by omega) hx rfl
      | true =>
        by_cases hmem : 62 ∈ x
        · obtain ⟨raw, z, rfl, hraw⟩ := List.eq_append_cons_of_mem hmem
          have hraw0 : 0 ∉ raw := fun h => hx (List.mem_append_left _ h)
          have hz0 : 0 ∉ z := fun h => hx (List.mem_append_right _ (List.mem_cons_of_mem _ h))
          rw [List.length_append, List.length_cons] at hn
          rw [List.append_assoc, List.cons_append] at hsame hopens ⊢
          rw [List.append_assoc, List.cons_append] at hsame ⊢
          rw [tags_cons_of_opens (hsame.trans hopens) hraw hraw0, tags_cons_of_opens hopens hraw hraw0,
            ih z.length (by omega) hz0 rfl]
          rfl
        · rw [tags_cons_of_opens (hsame.trans hopens) hmem hx, tags_cons_of_opens hopens hmem hx]
          rfl

/-! ## The runs of the walkers -/

theorem labelAt_eq_some {p : List UInt8} {l : Label} (h : labelAt p = some l) :
    l.behind.length < p.length := by
  rw [labelAt] at h
  split at h
  · cases h
  · next lend hlend =>
    obtain ⟨raw, r, rfl, rfl, -, -⟩ := strchr_eq_some hlend
    dsimp only at h
    rw [List.take_left] at h
    split at h
    · next hslash =>
      cases h
      have hraw : raw ≠ [] := by
        rintro rfl
        cases hslash
      have hpos := List.length_pos_iff.mpr hraw
      rw [List.length_drop, List.length_append]
      omega
    · cases h
      rw [List.length_drop, List.length_append, List.length_cons]
      omega

/-- The labels that `xml_label` meets if its callback makes `effect l` of the bytes behind each label. -/
def labelsLoop (effect : Label → List UInt8) : Nat → List UInt8 → List Label
  | 0, _ => []
  | _ + 1, [] => []
  | fuel + 1, b :: p =>
    if opens b p then
      match labelAt p with
      | none => labelsLoop effect fuel p
      | some l => l :: labelsLoop effect fuel (0 :: effect l)
    else labelsLoop effect fuel p

section Runs

variable {σ : Type}

/-- `xml_label` comes to the end of the text, and its callback is called once for each label, in their order. -/
theorem xmlLabelLoop_eq {step : σ → Label → σ} {effect : Label → List UInt8}
    (heffect : ∀ l, (effect l).length = l.behind.length) {fuel : Nat} {text : List UInt8}
    (hfuel : text.length < fuel) (user : σ) :
    xmlLabelLoop (fun u l => (step u l, effect l)) fuel text user =
      some ((labelsLoop effect fuel text).foldl step user) := by
  induction fuel generalizing text user with
  | zero => exact absurd hfuel (Nat.not_lt_zero _)
  | succ fuel ih =>
    cases text with
    | nil => rfl
    | cons b p =>
      have hp : p.length < fuel := Nat.lt_of_succ_lt_succ hfuel
      rw [xmlLabelLoop, labelsLoop]
      split
      · split
        · exact ih hp user
        · next l hl =>
          have hbehind := labelAt_eq_some hl
          rw [List.foldl_cons]
          apply ih
          rw [List.length_cons, heffect]
          omega
      · exact ih hp user

/-- The walk goes on at the end of the node, where no tag begins before the `>`. -/
theorem tags_drop_nodeOf (raw r : List UInt8) :
    tags ((raw ++ 62 :: r).drop (nodeOf raw).length) = tags r := by
  have hgt : tags (62 :: r) = tags r := tags_cons_of_not_opens (opens_ne (by decide))
  rw [nodeOf]
  split
  · next h =>
    obtain ⟨c, hc, hlast⟩ : ∃ c, c ≠ 60 ∧ raw.getLast? = some c := by
      rcases h with h | h
      · exact ⟨47, by decide, h⟩
      · exact ⟨63, by decide, h⟩
    obtain ⟨front, rfl⟩ := List.getLast?_eq_some_iff.mp hlast
    rw [List.dropLast_concat, List.append_assoc, List.drop_left, List.singleton_append,
      tags_cons_of_not_opens (opens_ne hc), hgt]
  · rw [List.drop_left, hgt]

/-- `xml_label2` comes to the end of the text, and its callback is called once for each tag, in their
order. -/
theorem xmlLabel2Loop_eq {step : σ → List UInt8 → σ} {fuel : Nat} {text : List UInt8}
    (hfuel : text.length < fuel) (ctx : σ) :
    xmlLabel2Loop (fun u n => step u n.node) fuel text ctx =
      some (((tags text).map nodeOf).foldl step ctx) := by
  induction fuel generalizing text ctx with
  | zero => exact absurd hfuel (Nat.not_lt_zero _)
  | succ fuel ih =>
    cases text with
    | nil => rfl
    | cons b p =>
      have hp : p.length < fuel := Nat.lt_of_succ_lt_succ hfuel
      rw [xmlLabel2Loop]
      cases hopens : opens b p with
      | false =>
        rw [tags_cons_of_not_opens hopens]
        exact ih hp ctx
      | true =>
        rw [if_pos rfl]
        cases hlend : strchr 62 p with
        | none =>
          rw [nodeAt, hlend, tags_cons_of_none hlend]
          exact ih hp ctx
        | some lend =>
          obtain ⟨raw, r, rfl, rfl, hgt, hzero⟩ := strchr_eq_some hlend
          obtain ⟨n, hn, hnode⟩ : ∃ n, nodeAt (raw ++ 62 :: r) = some n ∧ n.node = nodeOf raw := by
            rw [nodeAt, hlend]
            dsimp only
            rw [List.take_left]
            split
            · exact ⟨_, rfl, rfl⟩
            · exact ⟨_, rfl, rfl⟩
          rw [hn, tags_cons_of_opens hopens hgt hzero, List.map_cons, List.foldl_cons, ← hnode]
          dsimp only
          rw [ih, hnode, tags_drop_nodeOf]
          rw [List.length_drop]
          omega

end Runs

/-! ## Cuts -/

/-- `t'` is `t` with a NUL over the `<` of some `</`. -/
inductive CutOf : List UInt8 → List UInt8 → Prop
  | nil : CutOf [] []
  | same (b : UInt8) {t t' : List UInt8} : CutOf t t' → CutOf (b :: t) (b :: t')
  | cut {t t' : List UInt8} : CutOf t t' → CutOf (60 :: 47 :: t) (0 :: 47 :: t')

theorem CutOf.refl (t : List UInt8) : CutOf t t := by
  induction t with
  | nil => exact .nil
  | cons b t ih => exact .same b ih

/-- One more cut. -/
theorem CutOf.set {t t' r : List UInt8} (h : CutOf t t') {i : Nat} (hi : t'.drop i = 60 :: 47 :: r) :
    CutOf t (t'.set i 0) := by
  induction h generalizing i with
  | nil => rw [List.drop_nil] at hi; cases hi
  | @same b t t' h ih =>
    cases i with
    | succ i => exact .same b (ih hi)
    | zero =>
      obtain ⟨rfl, rfl⟩ := List.cons.inj hi
      cases h with
      | same _ h => exact .cut h
  | @cut t t' h ih =>
    match i, hi with
    | 0, hi => cases hi
    | 1, hi => cases hi
    | i + 2, hi => exact .cut (ih hi)

theorem CutOf.mem {t t' : List UInt8} (h : CutOf t t') {b : UInt8} (hb : b ∈ t') : b = 0 ∨ b ∈ t := by
  induction h with
  | nil => cases hb
  | same c _ ih =>
    rcases List.mem_cons.mp hb with rfl | hb
    · exact .inr List.mem_cons_self
    · exact (ih hb).imp_right (List.mem_cons_of_mem c)
  | cut _ ih =>
    rcases List.mem_cons.mp hb with rfl | hb
    · exact .inl rfl
    · rcases List.mem_cons.mp hb with rfl | hb
      · exact .inr (List.mem_cons_of_mem _ List.mem_cons_self)
      · exact (ih hb).imp_right fun h => List.mem_cons_of_mem _ (List.mem_cons_of_mem _ h)

/-- A tag begins in one text where it does in the other. -/
theorem CutOf.opens_eq {t t' : List UInt8} (h : CutOf t t') (b : UInt8) : opens b t' = opens b t := by
  cases h with
  | nil => rfl
  | same c _ => rfl
  | cut _ => rfl

/-- Before the end of a tag without `</` nothing is cut. -/
theorem CutOf.of_append {raw r t' : List UInt8} (h : CutOf (raw ++ 62 :: r) t') (hraw : ¬[60, 47] <:+: raw) :
    ∃ r', t' = raw ++ 62 :: r' ∧ CutOf r r' := by
  induction raw generalizing t' with
  | nil =>
    cases h with
    | same _ h => exact ⟨_, rfl, h⟩
  | cons b raw ih =>
    rw [List.cons_append] at h
    generalize hwhole : raw ++ 62 :: r = whole at h
    cases h with
    | same _ h =>
      rw [← hwhole] at h
      obtain ⟨r', rfl, hr⟩ := ih h fun hin => hraw (hin.trans (List.suffix_cons b raw).isInfix)
      exact ⟨r', rfl, hr⟩
    | cut _ =>
      exfalso
      cases raw with
      | nil => cases hwhole
      | cons c raw =>
        cases (List.cons.inj hwhole).1
        exact hraw ⟨[], raw, rfl⟩

/-- The bytes from a tag's `<` to its `>`, as they were before the label was ended. -/
def Label.tag (l : Label) : List UInt8 := if l.tlen = none then l.label ++ [47] else l.label

/-- The text of a label ends at an end tag, or where the response does. -/
def Label.Ended (l : Label) : Prop :=
  ∀ n, l.tlen = some n → n = l.behind.length ∨ ∃ r, l.behind.drop n = 60 :: 47 :: r

theorem xmlFindendLoop_eq_some {name text : List UInt8} {skip i : Nat}
    (h : xmlFindendLoop name skip text = some i) : ∃ r, text.drop i = 60 :: 47 :: r := by
  induction text generalizing skip i with
  | nil => cases skip <;> cases h
  | cons b rest ih =>
    cases skip with
    | succ skip =>
      obtain ⟨j, hj, rfl⟩ := Option.map_eq_some_iff.mp h
      exact ih hj
    | zero =>
      rw [xmlFindendLoop] at h
      split at h
      · next hopen =>
        obtain ⟨rfl, hslash⟩ := hopen
        split at h
        · cases h
          obtain ⟨r, rfl⟩ := List.head?_eq_some_iff.mp hslash
          exact ⟨r, rfl⟩
        · obtain ⟨j, hj, rfl⟩ := Option.map_eq_some_iff.mp h
          exact ih hj
      · obtain ⟨j, hj, rfl⟩ := Option.map_eq_some_iff.mp h
        exact ih hj

theorem xmlFindend_eq_some {name text : List UInt8} {i : Nat} (h : xmlFindend text name = some i) :
    ∃ r, text.drop i = 60 :: 47 :: r := by
  obtain ⟨r, hr⟩ := xmlFindendLoop_eq_some h
  have hi : i ≤ (cstr text).length := by
    apply Nat.le_of_lt
    apply Nat.lt_of_not_le
    intro hle
    rw [List.drop_of_length_le hle] at hr
    cases hr
  refine ⟨r ++ text.drop (cstr text).length, ?_⟩
  have hsplit : text = cstr text ++ text.drop (cstr text).length := by
    have hprefix := List.prefix_iff_eq_append.mp (List.takeWhile_prefix (l := text) (· != 0))
    exact hprefix.symm
  calc text.drop i = (cstr text ++ text.drop (cstr text).length).drop i := by rw [← hsplit]
    _ = (cstr text).drop i ++ text.drop (cstr text).length := List.drop_append_of_le_length hi
    _ = 60 :: 47 :: (r ++ text.drop (cstr text).length) := by rw [hr]; rfl

/-- What `labelAt` finds at the beginning of a tag. -/
theorem labelAt_append {raw : List UInt8} (hgt : 62 ∉ raw) (hzero : 0 ∉ raw) (r : List UInt8) :
    ∃ l, labelAt (raw ++ 62 :: r) = some l ∧ l.tag = raw ∧ l.Ended ∧
      (l.behind = r ∨ 0 < raw.length ∧ l.behind = 62 :: r) := by
  rw [labelAt, strchr_append hgt hzero]
  dsimp only
  rw [List.take_left]
  split
  · next hslash =>
    obtain ⟨front, rfl⟩ := List.getLast?_eq_some_iff.mp hslash
    refine ⟨_, rfl, ?_, ?_, .inr ⟨?_, ?_⟩⟩
    · rw [List.dropLast_concat]
      rfl
    · intro n hn
      cases hn
    · rw [List.length_append, List.length_singleton]
      exact Nat.succ_pos _
    · rw [List.drop_left]
  · refine ⟨_, rfl, rfl, ?_, .inl ?_⟩
    · rintro n hn
      cases hn
      cases hfind : xmlFindend ((raw ++ 62 :: r).drop (raw.length + 1)) (raw.takeWhile (· != 32)) with
      | none => exact .inl rfl
      | some i => exact .inr (xmlFindend_eq_some hfind)
    · rw [List.append_cons, ← List.length_singleton, ← List.length_append, List.drop_left]

theorem CutOf.strchr_eq_none {t t' : List UInt8} (h : CutOf t t') (hzero : 0 ∉ t) (hnone : strchr 62 t = none) :
    strchr 62 t' = none := by
  apply strchr_of_notMem
  intro hmem
  rcases h.mem hmem with hbad | hmem
  · cases hbad
  · obtain ⟨k, hk⟩ := strchr_isSome hzero hmem
    rw [hnone] at hk
    cases hk

/-- One more step over a byte at which no tag begins. -/
theorem labelsLoop_cons_of_not_opens {effect : Label → List UInt8} {b : UInt8} {p : List UInt8}
    (h : opens b p = false) (fuel : Nat) : labelsLoop effect (fuel + 1) (b :: p) = labelsLoop effect fuel p := by
  rw [labelsLoop, h]
  rfl

/-- The cuts behind the walker do not change which labels it meets: they are the tags of the text as it
was, as long as none of them has a `</` inside. -/
theorem labelsLoop_of_cutOf {effect : Label → List UInt8}
    (heffect : ∀ l t, l.Ended → CutOf t l.behind → CutOf t (effect l)) {fuel : Nat} {t t' : List UInt8}
    (hcut : CutOf t t') (hzero : 0 ∉ t) (hplain : ∀ tag ∈ tags t, ¬[60, 47] <:+: tag)
    (hfuel : t.length < fuel) : (labelsLoop effect fuel t').map Label.tag = tags t := by
  induction fuel using Nat.strong_induction_on generalizing t t' with
  | _ fuel ih =>
    obtain ⟨fuel, rfl⟩ : ∃ n, fuel = n + 1 := ⟨fuel - 1, by omega⟩
    cases hcut with
    | nil => rfl
    | @cut t t' hcut =>
      have hrest : (labelsLoop effect fuel (47 :: t')).map Label.tag = tags (47 :: t) := by
        apply ih fuel (Nat.lt_succ_self _) (.same 47 hcut) (List.not_mem_of_not_mem_cons hzero) hplain
        exact Nat.lt_of_succ_lt_succ hfuel
      rwa [labelsLoop_cons_of_not_opens (opens_ne (by decide)), tags_cons_of_not_opens rfl]
    | @same b t t' hcut =>
      have hzero := List.not_mem_of_not_mem_cons hzero
      have hlt : t.length < fuel := Nat.lt_of_succ_lt_succ hfuel
      cases hopens : opens b t with
      | false =>
        rw [tags_cons_of_not_opens hopens] at hplain ⊢
        rw [← hcut.opens_eq] at hopens
        rw [labelsLoop_cons_of_not_opens hopens]
        exact ih fuel (Nat.lt_succ_self _) hcut hzero hplain hlt
      | true =>
        rw [labelsLoop, hcut.opens_eq, if_pos hopens]
        cases hlend : strchr 62 t with
        | none =>
          rw [tags_cons_of_none hlend] at hplain ⊢
          rw [labelAt, hcut.strchr_eq_none hzero hlend]
          exact ih fuel (Nat.lt_succ_self _) hcut hzero hplain hlt
        | some lend =>
          obtain ⟨raw, r, rfl, -, hgt, hraw⟩ := strchr_eq_some hlend
          rw [tags_cons_of_opens hopens hgt hraw] at hplain ⊢
          obtain ⟨r', rfl, hr⟩ := hcut.of_append (hplain raw List.mem_cons_self)
          obtain ⟨l, hl, htag, hended, hbehind⟩ := labelAt_append hgt hraw r'
          rw [hl, List.map_cons, htag]
          congr 1
          -- the step over the NUL at the end of the label, and the rest by the induction hypothesis
          rw [List.length_append, List.length_cons] at hlt
          obtain ⟨fuel, rfl⟩ : ∃ n, fuel = n + 1 := ⟨fuel - 1, by omega⟩
          rw [labelsLoop_cons_of_not_opens (opens_ne (by decide))]
          have hr0 : 0 ∉ r := fun h => hzero (List.mem_append_right _ (List.mem_cons_of_mem _ h))
          have hrest : ∀ tag ∈ tags r, ¬[60, 47] <:+: tag := fun tag h => hplain tag (List.mem_cons_of_mem _ h)
          rcases hbehind with hbehind | ⟨hpos, hbehind⟩
          · have heff := heffect l r hended (by rw [hbehind]; exact hr)
            exact ih fuel (by omega) heff hr0 hrest (by omega)
          · have heff := heffect l (62 :: r) hended (by rw [hbehind]; exact .same 62 hr)
            have hgt : tags (62 :: r) = tags r := tags_cons_of_not_opens (opens_ne (by decide))
            rw [← hgt] at hrest ⊢
            apply ih fuel (by omega) heff _ hrest (by rw [List.length_cons]; omega)
            exact List.not_mem_cons_of_ne_of_not_mem (by decide) hr0

/-- What holds of each label that is found in a text. -/
structure Label.Read (l : Label) : Prop where
  zero : 0 ∉ l.label
  slash : l.tlen ≠ none → l.label.getLast? ≠ some 47

theorem labelAt_read {p : List UInt8} {l : Label} (h : labelAt p = some l) : l.Read := by
  rw [labelAt] at h
  split at h
  · cases h
  · next lend hlend =>
    obtain ⟨raw, r, rfl, rfl, -, hzero⟩ := strchr_eq_some hlend
    dsimp only at h
    rw [List.take_left] at h
    split at h
    · cases h
      exact ⟨fun hin => hzero (List.dropLast_subset raw hin), fun hnone => absurd rfl hnone⟩
    · next hslash =>
      cases h
      exact ⟨hzero, fun _ => hslash⟩

theorem labelsLoop_read {effect : Label → List UInt8} {fuel : Nat} {text : List UInt8} :
    ∀ l ∈ labelsLoop effect fuel text, l.Read := by
  induction fuel generalizing text with
  | zero => exact fun _ h => nomatch h
  | succ fuel ih =>
    cases text with
    | nil => exact fun _ h => nomatch h
    | cons b p =>
      rw [labelsLoop]
      split
      · split
        · exact ih
        · next l hl => exact List.forall_mem_cons.mpr ⟨labelAt_read hl, ih⟩
      · exact ih

/-- The label of a tag, without the slash at its end. -/
def labelPart (tag : List UInt8) : List UInt8 := if tag.getLast? = some 47 then tag.dropLast else tag

theorem Label.Read.label_eq {l : Label} (h : l.Read) : l.label = labelPart l.tag := by
  rw [Label.tag, labelPart]
  split
  · rw [if_pos List.getLast?_concat, List.dropLast_concat]
  · next hnone => rw [if_neg (h.slash hnone)]

theorem Label.Read.tlen_iff {l : Label} (h : l.Read) : l.tlen = none ↔ l.tag.getLast? = some 47 := by
  rw [Label.tag]
  split
  · next hnone => exact iff_of_true hnone List.getLast?_concat
  · next hnone => exact iff_of_false hnone (h.slash hnone)

end ProgrammingPath.Onvif
