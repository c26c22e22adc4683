import ProgrammingPath.Rtsp.Reader
import ProgrammingPath.Service.OnvifLabels

/-!
# The profiles of an ONVIF response (`Onvif_HttpDigest.c`)

`Onvif_MediaService_GetProfiles` counts the Profiles elements with `xml_label2`, allocates so many
profiles, and lets `xml_label` fill them. The two passes read the name of an element in different ways.
The first takes what is between the first colon and the first space, and is content with a beginning of
`Profiles`; the second takes what is behind the first colon, also when a space is before it, and wants a
`token=`. And the check before a token is stored allows one more than there are.
-/

namespace ProgrammingPath.Onvif

open ProgrammingPath.Lib
open ProgrammingPath.Rtsp (scanInt toInt)

/-! ## The counting pass -/

/-- `XML_LABEL_Profiles`. -/
def xmlLabelProfiles : List UInt8 := text "Profiles"

/-- `strchr_len`, as an offset. -/
def strchrLen (ptr : List UInt8) (v : UInt8) : Option Nat := ptr.idxOf? v

/-- Whether `_xml_GetProfilesResponse_Profiles_size` counts a node: `strncasecmp` compares no more of
`Profiles` than the name is long. -/
def countsNode (node : List UInt8) : Bool :=
  let nameStart := ((strchrLen node 58).map (· + 1)).getD 0
  let nameEnd := (strchrLen node 32).getD node.length
  nameStart < nameEnd && startsCI ((node.take nameEnd).drop nameStart) xmlLabelProfiles

/-- `_xml_GetProfilesResponse_Profiles_size`. -/
def profilesSize (size : Nat) (node : List UInt8) : Nat := if countsNode node then size + 1 else size

/-! ## The filling pass -/

/-- `struct OnvifDeviceProfiles`. -/
structure OnvifDeviceProfiles where
  httpRespStatus : Int
  token : List UInt8
  encodname : List UInt8
  width : Int
  height : Int
  frameRateLimit : Int
  bitrateLimit : Int
  deriving DecidableEq

/-- As `calloc` leaves it. -/
def OnvifDeviceProfiles.zero : OnvifDeviceProfiles := ⟨0, [], [], 0, 0, 0, 0⟩

/-- `struct OnvifGetProfilesResContext`, with a record of what was done to the memory. -/
structure Context where
  profiles : List OnvifDeviceProfiles
  index : Nat
  profsize : Nat
  /-- The indices of `profiles` that were written to. -/
  writes : List Nat
  /-- A store through a wild pointer, a token that was never read, or one too long for its array. -/
  undefined : Bool
  deriving DecidableEq

/-- `strcasecmp(lit, str) == 0`. -/
def strcasecmp (lit str : List UInt8) : Bool := str.map toLower == lit.map toLower

/-- Where the loop on `attrib` stops in a label: at the first space behind its first byte, or at its end. -/
def attribAt : List UInt8 → Nat
  | [] => 0
  | _ :: rest => (strchr 32 rest).getD rest.length + 1

/-- The string `label`. A NUL is written where `attrib` stopped, which may be before the colon. -/
def labelName (xmllabel : List UInt8) : List UInt8 :=
  let start := ((strchr 58 xmllabel).map (· + 1)).getD 0
  if start ≤ attribAt xmllabel then (xmllabel.take (attribAt xmllabel)).drop start else xmllabel.drop start

/-- The string `attrib`: behind the last byte of the label begins the text. -/
def attribOf (l : Label) : List UInt8 :=
  if attribAt l.label < l.label.length then l.label.drop (attribAt l.label + 1) else cstr l.behind

/-- What `sscanf(p, "token=%*c%[^\\"\\']", token)` reads, if there is a `token=`. -/
def scanToken (attrib : List UInt8) : Option (List UInt8) :=
  (indexOf (text "token=") attrib).map fun p => (attrib.drop (p + 7)).takeWhile fun b => b != 34 && b != 39

/-- The token that is taken from a label. -/
def tokenOf (l : Label) : Option (List UInt8) :=
  if strcasecmp xmlLabelProfiles (labelName l.label) then scanToken (attribOf l) else none

/-- Whether a NUL is written at the end of the text of a label with this name. -/
def cutsText (name : List UInt8) : Bool :=
  [text "Encoding", text "Width", text "Height", text "Name"].any fun lit => strcasecmp lit name

/-- The bytes behind a label after the callback. -/
def cutText (l : Label) : List UInt8 :=
  match l.tlen with
  | some tlen => if cutsText (labelName l.label) then l.behind.set tlen 0 else l.behind
  | none => l.behind

/-- The string `txt` after the callback has ended it. -/
def txtOf (l : Label) : List UInt8 := if l.tlen = none then [] else cstr (cutText l)

/-- A store to a field of `profiles[i]`. -/
def Context.store (c : Context) (i : Nat) (f : OnvifDeviceProfiles → OnvifDeviceProfiles) : Context :=
  { c with profiles := c.profiles.modify i f, writes := c.writes ++ [i] }

/-- The branch of the callback for Profiles. `token` has a hundred bytes, here and in the profile. -/
def storeToken (c : Context) (token : Option (List UInt8)) : Context :=
  match token with
  | none => c
  | some token =>
    if token = [] ∨ 100 ≤ token.length then { c with undefined := true }
    else if c.index ≤ c.profsize then
      { c.store c.index fun p => { p with token := token } with index := c.index + 1 }
    else c

/-- `txt[tlen] = 0` with a `tlen` that was computed from `NULL`. -/
def storeEnd (c : Context) (l : Label) : Context :=
  if l.tlen = none ∧ cutsText (labelName l.label) then { c with undefined := true } else c

/-- The branch for Encoding. The name that is there already is read before `index` is checked; what it is
does not matter then. -/
def storeEncoding (c : Context) (name txt : List UInt8) : Context :=
  if strcasecmp (text "Encoding") name && ((c.profiles[c.index - 1]?).map (·.encodname)).getD [] == []
      && 0 < c.index && c.index ≤ c.profsize then
    c.store (c.index - 1) fun p => { p with encodname := txt.take 19 }
  else c

/-- A branch that reads a number with `sscanf(txt, "%d", ...)`. -/
def storeNumber (lit : List UInt8) (set : Int → OnvifDeviceProfiles → OnvifDeviceProfiles) (c : Context)
    (name txt : List UInt8) : Context :=
  if strcasecmp lit name && 0 < c.index && c.index ≤ c.profsize then
    match scanInt txt with
    | some v => c.store (c.index - 1) (set (toInt v))
    | none => c
  else c

def storeWidth : Context → List UInt8 → List UInt8 → Context :=
  storeNumber (text "Width") fun v p => { p with width := v }

def storeHeight : Context → List UInt8 → List UInt8 → Context :=
  storeNumber (text "Height") fun v p => { p with height := v }

def storeFrameRateLimit : Context → List UInt8 → List UInt8 → Context :=
  storeNumber (text "FrameRateLimit") fun v p => { p with frameRateLimit := v }

def storeBitrateLimit : Context → List UInt8 → List UInt8 → Context :=
  storeNumber (text "BitrateLimit") fun v p => { p with bitrateLimit := v }

/-- What `_xml_GetProfilesResponse` makes of the context. -/
def Context.step (c : Context) (l : Label) : Context :=
  let name := labelName l.label
  let c := storeEnd (storeToken c (tokenOf l)) l
  let c := storeEncoding c name (txtOf l)
  let c := storeHeight (storeWidth c name (txtOf l)) name (txtOf l)
  storeBitrateLimit (storeFrameRateLimit c name (txtOf l)) name (txtOf l)

/-- `_xml_GetProfilesResponse`. -/
def xmlGetProfilesResponse (c : Context) (l : Label) : Context × List UInt8 := (c.step l, cutText l)

/-- `Onvif_MediaService_GetProfiles` with what `onvif_http_digest_post` returned. -/
def onvifMediaServiceGetProfiles (ret : Int) (xmlstr : Option (List UInt8)) : Option Context :=
  match xmlstr with
  | none => some ⟨[], 0, 0, [], false⟩
  | some xmlstr =>
    if ret = 200 then do
      let size ← xmlLabel2 xmlstr (fun size n => profilesSize size n.node) 0
      if 0 < size then
        let c ← xmlLabel xmlstr xmlGetProfilesResponse
          ⟨List.replicate size OnvifDeviceProfiles.zero, 0, size, [], false⟩
        some (c.store 0 fun p => { p with httpRespStatus := ret })
      else some ⟨[], 0, 0, [], false⟩
    else some ⟨[], 0, 0, [], false⟩

/-! ## What one label does -/

/-- Nothing undefined happened, and every write was to a profile that was allocated. -/
def Context.Good (c : Context) : Prop := c.undefined = false ∧ ∀ i ∈ c.writes, i < c.profsize

instance (c : Context) : Decidable c.Good := inferInstanceAs (Decidable (_ ∧ _))

/-- A step that at most writes to the other fields of the last profile. -/
structure Context.Keeps (c c' : Context) : Prop where
  index : c'.index = c.index
  profsize : c'.profsize = c.profsize
  undefined : c'.undefined = c.undefined
  tokens : c'.profiles.map (·.token) = c.profiles.map (·.token)
  writes : ∀ i ∈ c'.writes, i ∈ c.writes ∨ i < c.profsize
  kept : ∀ i ∈ c.writes, i ∈ c'.writes

theorem Context.Keeps.refl (c : Context) : c.Keeps c :=
  ⟨rfl, rfl, rfl, rfl, fun _ => .inl, fun _ => id⟩

theorem Context.Keeps.trans {c c' c'' : Context} (h : c.Keeps c') (h' : c'.Keeps c'') : c.Keeps c'' where
  index := h'.index.trans h.index
  profsize := h'.profsize.trans h.profsize
  undefined := h'.undefined.trans h.undefined
  tokens := h'.tokens.trans h.tokens
  writes i hi := by
    rcases h'.writes i hi with hi | hi
    · exact h.writes i hi
    · exact .inr (h.profsize ▸ hi)
  kept i hi := h'.kept i (h.kept i hi)

theorem Context.Keeps.good_iff {c c' : Context} (h : c.Keeps c') : c'.Good ↔ c.Good := by
  rw [Context.Good, Context.Good, h.undefined, h.profsize]
  refine and_congr_right fun _ => ⟨fun hin i hi => hin i (h.kept i hi), fun hin i hi => ?_⟩
  rcases h.writes i hi with hi | hi
  · exact hin i hi
  · exact hi

theorem map_modify_of_eq {α β : Type} {f : α → α} {g : α → β} (h : ∀ a, g (f a) = g a) (l : List α)
    (i : Nat) : (l.modify i f).map g = l.map g := by
  induction l generalizing i with
  | nil => cases i <;> rfl
  | cons a l ih =>
    cases i with
    | zero => rw [List.modify_zero_cons, List.map_cons, List.map_cons, h]
    | succ i => rw [List.modify_succ_cons, List.map_cons, List.map_cons, ih]

/-- A store to an allocated profile that leaves its token alone. -/
theorem Context.keeps_store {c : Context} {i : Nat} {f : OnvifDeviceProfiles → OnvifDeviceProfiles}
    (hi : i < c.profsize) (hf : ∀ p, (f p).token = p.token) : c.Keeps (c.store i f) where
  index := rfl
  profsize := rfl
  undefined := rfl
  tokens := map_modify_of_eq hf _ _
  writes j hj := by
    rcases List.mem_append.mp hj with hj | hj
    · exact .inl hj
    · rw [List.mem_singleton.mp hj]
      exact .inr hi
  kept _ hj := List.mem_append_left _ hj

theorem storeEncoding_keeps (c : Context) (name txt : List UInt8) : c.Keeps (storeEncoding c name txt) := by
  rw [storeEncoding]
  split
  · next h =>
    simp only [Bool.and_eq_true, decide_eq_true_eq] at h
    exact Context.keeps_store (by omega) fun _ => rfl
  · exact .refl c

theorem storeNumber_keeps {lit : List UInt8} {set : Int → OnvifDeviceProfiles → OnvifDeviceProfiles}
    (hset : ∀ v p, (set v p).token = p.token) (c : Context) (name txt : List UInt8) :
    c.Keeps (storeNumber lit set c name txt) := by
  rw [storeNumber]
  split
  · next h =>
    simp only [Bool.and_eq_true, decide_eq_true_eq] at h
    split
    · exact Context.keeps_store (by omega) (hset _)
    · exact .refl c
  · exact .refl c

theorem storeWidth_keeps (c : Context) (name txt : List UInt8) : c.Keeps (storeWidth c name txt) :=
  storeNumber_keeps (by intro _ _; rfl) c name txt

theorem storeHeight_keeps (c : Context) (name txt : List UInt8) : c.Keeps (storeHeight c name txt) :=
  storeNumber_keeps (by intro _ _; rfl) c name txt

theorem storeFrameRateLimit_keeps (c : Context) (name txt : List UInt8) :
    c.Keeps (storeFrameRateLimit c name txt) :=
  storeNumber_keeps (by intro _ _; rfl) c name txt

theorem storeBitrateLimit_keeps (c : Context) (name txt : List UInt8) :
    c.Keeps (storeBitrateLimit c name txt) :=
  storeNumber_keeps (by intro _ _; rfl) c name txt

/-- Behind the token and the end of the text, nothing is stored that matters to the passes. -/
theorem Context.step_keeps (c : Context) (l : Label) :
    (storeEnd (storeToken c (tokenOf l)) l).Keeps (c.step l) := by
  rw [Context.step]
  have hencoding := storeEncoding_keeps (storeEnd (storeToken c (tokenOf l)) l) (labelName l.label) (txtOf l)
  have hwidth := hencoding.trans (storeWidth_keeps _ (labelName l.label) (txtOf l))
  have hheight := hwidth.trans (storeHeight_keeps _ (labelName l.label) (txtOf l))
  have hframeRate := hheight.trans (storeFrameRateLimit_keeps _ (labelName l.label) (txtOf l))
  exact hframeRate.trans (storeBitrateLimit_keeps _ (labelName l.label) (txtOf l))

/-- A label whose token, if one is taken from it, has at least one byte and fits its array, and which is
not closed by its own slash if the callback wants to end its text. -/
structure Label.Fine (l : Label) : Prop where
  ended : ¬(l.tlen = none ∧ cutsText (labelName l.label) = true)
  token : ∀ token ∈ tokenOf l, token ≠ [] ∧ token.length < 100

instance (l : Label) : Decidable l.Fine :=
  decidable_of_iff (¬(l.tlen = none ∧ cutsText (labelName l.label) = true) ∧
    ∀ token ∈ tokenOf l, token ≠ [] ∧ token.length < 100)
    ⟨fun h => ⟨h.1, h.2⟩, fun h => ⟨h.ended, h.token⟩⟩

/-- Whether a token is taken from a label. -/
def Label.takes (l : Label) : Bool := (tokenOf l).isSome

/-- The tokens stored so far. -/
def Context.tokens (c : Context) : List (List UInt8) := (c.profiles.map (·.token)).take c.index

theorem storeToken_good_iff {c : Context} (hgood : c.Good) (hindex : c.index ≤ c.profsize)
    (token : Option (List UInt8)) :
    (storeToken c token).Good ↔ ∀ t ∈ token, t ≠ [] ∧ t.length < 100 ∧ c.index < c.profsize := by
  cases token with
  | none => exact iff_of_true hgood fun _ h => nomatch h
  | some token =>
    rw [storeToken]
    simp only [Option.mem_some_iff, forall_eq']
    split
    · next hbad =>
      refine iff_of_false (fun h => nomatch h.1) ?_
      rintro ⟨hne, hlen, -⟩
      rcases hbad with hbad | hbad
      · exact hne hbad
      · omega
    · next hfine =>
      rw [not_or, Nat.not_le] at hfine
      constructor
      · intro h
        exact ⟨hfine.1, hfine.2, h.2 c.index (List.mem_append_right _ List.mem_cons_self)⟩
      · rintro ⟨-, -, hlt⟩
        refine ⟨hgood.1, fun i hi => ?_⟩
        rcases List.mem_append.mp hi with hi | hi
        · exact hgood.2 i hi
        · rw [List.mem_singleton.mp hi]
          exact hlt

theorem storeEnd_good_iff (c : Context) (l : Label) :
    (storeEnd c l).Good ↔ ¬(l.tlen = none ∧ cutsText (labelName l.label) = true) ∧ c.Good := by
  rw [storeEnd]
  split
  · next h => exact iff_of_false (fun hgood => nomatch hgood.1) fun hand => hand.1 h
  · next h => exact (and_iff_right h).symm

/-- After a label all is well if the label is fine and, when a token was taken, there was a profile left. -/
theorem Context.step_good_iff {c : Context} (hgood : c.Good) (hindex : c.index ≤ c.profsize) (l : Label) :
    (c.step l).Good ↔ l.Fine ∧ (l.takes = true → c.index < c.profsize) := by
  rw [(c.step_keeps l).good_iff, storeEnd_good_iff, storeToken_good_iff hgood hindex]
  constructor
  · rintro ⟨hended, htoken⟩
    refine ⟨⟨hended, fun t ht => ⟨(htoken t ht).1, (htoken t ht).2.1⟩⟩, fun htakes => ?_⟩
    obtain ⟨t, ht⟩ := Option.isSome_iff_exists.mp htakes
    exact (htoken t ht).2.2
  · rintro ⟨hfine, hlt⟩
    refine ⟨hfine.ended, fun t ht => ⟨(hfine.token t ht).1, (hfine.token t ht).2, hlt ?_⟩⟩
    exact Option.isSome_iff_exists.mpr ⟨t, ht⟩

/-- What was wrong stays wrong. -/
theorem Context.good_of_step {c : Context} {l : Label} (h : (c.step l).Good) : c.Good := by
  rw [(c.step_keeps l).good_iff, storeEnd_good_iff] at h
  obtain ⟨-, hundefined, hwrites⟩ := h
  revert hundefined hwrites
  unfold storeToken
  split
  · exact And.intro
  · split
    · intro h
      cases h
    · split
      · exact fun hundefined hwrites => ⟨hundefined, fun i hi => hwrites i (List.mem_append_left _ hi)⟩
      · exact And.intro

/-- What a label adds to the tokens. -/
theorem Context.step_tokens {c : Context} {l : Label} (hgood : (c.step l).Good) (hindex : c.index ≤ c.profsize) :
    (c.step l).index = c.index + (tokenOf l).toList.length ∧ (c.step l).profsize = c.profsize ∧
      (c.step l).profiles.length = c.profiles.length ∧
      (c.profiles.length = c.profsize → (c.step l).tokens = c.tokens ++ (tokenOf l).toList) := by
  have hc : c.Good := Context.good_of_step hgood
  have hkeeps := c.step_keeps l
  have hlt := ((Context.step_good_iff hc hindex l).mp hgood).2
  have hfine := ((Context.step_good_iff hc hindex l).mp hgood).1
  have hend : storeEnd (storeToken c (tokenOf l)) l = storeToken c (tokenOf l) := by
    rw [storeEnd, if_neg hfine.ended]
  rw [hend] at hkeeps
  have hlength := congrArg List.length hkeeps.tokens
  rw [List.length_map, List.length_map] at hlength
  rw [hkeeps.index, hkeeps.profsize, hlength, Context.tokens, hkeeps.tokens, hkeeps.index]
  cases htoken : tokenOf l with
  | none => exact ⟨rfl, rfl, rfl, fun _ => (List.append_nil _).symm⟩
  | some token =>
    obtain ⟨hne, hlen⟩ := hfine.token token htoken
    have hlt : c.index < c.profsize := hlt (by rw [Label.takes, htoken]; rfl)
    rw [storeToken, if_neg (by rw [not_or]; exact ⟨hne, Nat.not_le.mpr hlen⟩), if_pos hindex]
    refine ⟨rfl, rfl, List.length_modify .., fun hprofiles => ?_⟩
    have hin : c.index < c.profiles.length := by rw [hprofiles]; exact hlt
    have hprefix : ((c.profiles.take c.index).map (·.token)).length = c.index := by
      rw [List.length_map, List.length_take, Nat.min_eq_left (Nat.le_of_lt hin)]
    rw [Context.store]
    dsimp only
    rw [List.modify_eq_take_cons_drop hin, List.map_append, List.map_cons, List.append_cons, List.take_left',
      List.map_take]
    · rfl
    · rw [List.length_append, hprefix, List.length_singleton]

/-! ## The two passes -/

theorem Context.good_of_foldl {c : Context} {ls : List Label} (h : (ls.foldl Context.step c).Good) : c.Good := by
  induction ls generalizing c with
  | nil => exact h
  | cons l ls ih => exact Context.good_of_step (ih h)

/-- A run over labels is well if they are fine and no more tokens are taken than there are profiles left. -/
theorem Context.foldl_good_iff {c : Context} (hgood : c.Good) (hindex : c.index ≤ c.profsize) (ls : List Label) :
    (ls.foldl Context.step c).Good ↔
      (∀ l ∈ ls, l.Fine) ∧ c.index + ls.countP Label.takes ≤ c.profsize := by
  induction ls generalizing c with
  | nil => exact iff_of_true hgood ⟨fun _ h => (nomatch h), hindex⟩
  | cons l ls ih =>
    rw [List.foldl_cons, List.forall_mem_cons, List.countP_cons]
    by_cases hstep : (c.step l).Good
    · have htokens := Context.step_tokens hstep hindex
      obtain ⟨hfine, hlt⟩ := (Context.step_good_iff hgood hindex l).mp hstep
      have hcount : (tokenOf l).toList.length = if l.takes = true then 1 else 0 := by
        rw [Label.takes]
        cases tokenOf l <;> rfl
      have hnext : (c.step l).index ≤ (c.step l).profsize := by
        rw [htokens.1, htokens.2.1, hcount]
        split
        · next htakes => exact hlt htakes
        · exact hindex
      rw [ih hstep hnext, htokens.1, htokens.2.1, hcount, and_iff_right hfine, Nat.add_assoc, Nat.add_comm (ite _ _ _)]
    · refine iff_of_false (fun h => hstep (Context.good_of_foldl h)) ?_
      rintro ⟨⟨hfine, -⟩, hle⟩
      refine hstep ((Context.step_good_iff hgood hindex l).mpr ⟨hfine, fun htakes => ?_⟩)
      rw [if_pos htakes] at hle
      omega

theorem Context.step_profsize (c : Context) (l : Label) : (c.step l).profsize = c.profsize := by
  rw [(c.step_keeps l).profsize]
  have htoken : (storeToken c (tokenOf l)).profsize = c.profsize := by
    unfold storeToken
    split
    · rfl
    · split
      · rfl
      · split <;> rfl
  rw [storeEnd]
  split <;> exact htoken

theorem Context.foldl_profsize (c : Context) (ls : List Label) :
    (ls.foldl Context.step c).profsize = c.profsize := by
  induction ls generalizing c with
  | nil => rfl
  | cons l ls ih => exact (ih (c.step l)).trans (c.step_profsize l)

/-- The tokens of a run that goes well. -/
theorem Context.foldl_tokens {c : Context} (hindex : c.index ≤ c.profsize)
    (hprofiles : c.profiles.length = c.profsize) {ls : List Label} (h : (ls.foldl Context.step c).Good) :
    (ls.foldl Context.step c).tokens = c.tokens ++ ls.filterMap tokenOf := by
  induction ls generalizing c with
  | nil => exact (List.append_nil _).symm
  | cons l ls ih =>
    have hstep : (c.step l).Good := Context.good_of_foldl h
    obtain ⟨hi, hsize, hlength, htokens⟩ := Context.step_tokens hstep hindex
    have hnext : (c.step l).index ≤ (c.step l).profsize := by
      have hlt := ((Context.step_good_iff (Context.good_of_step hstep) hindex l).mp hstep).2
      rw [hi, hsize]
      cases htoken : tokenOf l with
      | none => exact hindex
      | some token => exact hlt (by rw [Label.takes, htoken]; rfl)
    have hrun := ih hnext (by rw [hlength, hsize, hprofiles]) h
    rw [List.foldl_cons, hrun, htokens hprofiles, List.filterMap_cons, List.append_assoc]
    cases tokenOf l <;> rfl

theorem cutText_length (l : Label) : (cutText l).length = l.behind.length := by
  rw [cutText]
  split
  · split
    · exact List.length_set ..
    · rfl
  · rfl

/-- The labels that the filling pass meets. -/
def labels (xmlstr : List UInt8) : List Label :=
  labelsLoop cutText ((cstr xmlstr).length + 1) (cstr xmlstr)

/-- How many of the tags are counted. -/
def counted (xmlstr : List UInt8) : Nat := (tags (cstr xmlstr)).countP fun tag => countsNode (nodeOf tag)

theorem foldl_profilesSize (nodes : List (List UInt8)) (n : Nat) :
    nodes.foldl profilesSize n = n + nodes.countP countsNode := by
  induction nodes generalizing n with
  | nil => rfl
  | cons node nodes ih =>
    rw [List.foldl_cons, ih, List.countP_cons, profilesSize]
    split <;> omega

/-- The counting pass ends, and it counts tags. -/
theorem xmlLabel2_eq (xmlstr : List UInt8) :
    xmlLabel2 xmlstr (fun size n => profilesSize size n.node) 0 = some (counted xmlstr) := by
  rw [xmlLabel2, xmlLabel2Loop_eq (Nat.lt_succ_self _), foldl_profilesSize, Nat.zero_add, List.countP_map]
  rfl

/-- The filling pass ends, and it goes through the labels one after the other. -/
theorem xmlLabel_eq (xmlstr : List UInt8) (c : Context) :
    xmlLabel xmlstr xmlGetProfilesResponse c = some ((labels xmlstr).foldl Context.step c) :=
  xmlLabelLoop_eq cutText_length (Nat.lt_succ_self _) c

/-- The context before the filling pass. -/
def Context.start (size : Nat) : Context :=
  ⟨List.replicate size OnvifDeviceProfiles.zero, 0, size, [], false⟩

theorem onvifMediaServiceGetProfiles_of_pos {xmlstr : List UInt8} (h : 0 < counted xmlstr) :
    onvifMediaServiceGetProfiles 200 (some xmlstr) =
      some (((labels xmlstr).foldl Context.step (.start (counted xmlstr))).store 0
        fun p => { p with httpRespStatus := 200 }) := by
  rw [onvifMediaServiceGetProfiles]
  rw [if_pos rfl, xmlLabel2_eq, Option.bind_eq_bind, Option.bind_some, if_pos h, xmlLabel_eq]
  rfl

theorem onvifMediaServiceGetProfiles_of_zero {xmlstr : List UInt8} (h : counted xmlstr = 0) :
    onvifMediaServiceGetProfiles 200 (some xmlstr) = some ⟨[], 0, 0, [], false⟩ := by
  rw [onvifMediaServiceGetProfiles]
  rw [if_pos rfl, xmlLabel2_eq, Option.bind_eq_bind, Option.bind_some, h, if_neg (Nat.lt_irrefl 0)]

/-- With a response, the two passes come to an end, nothing undefined happens, and every write to the
profiles is below the number that was counted before. -/
def InBounds (xmlstr : List UInt8) : Prop :=
  ∃ size c, xmlLabel2 xmlstr (fun size n => profilesSize size n.node) 0 = some size ∧
    onvifMediaServiceGetProfiles 200 (some xmlstr) = some c ∧ c.undefined = false ∧ ∀ i ∈ c.writes, i < size

/-- The labels are fine, and no more of them have a token than tags are counted. -/
structure Fits (xmlstr : List UInt8) : Prop where
  fine : ∀ l ∈ labels xmlstr, l.Fine
  takes : (labels xmlstr).countP Label.takes ≤ counted xmlstr

/-- The filling pass stays within the profiles exactly when the tags suffice. -/
theorem good_iff_fits (xmlstr : List UInt8) :
    ((labels xmlstr).foldl Context.step (.start (counted xmlstr))).Good ↔ Fits xmlstr := by
  have hgood : (Context.start (counted xmlstr)).Good := ⟨rfl, fun _ h => nomatch h⟩
  have hindex : (Context.start (counted xmlstr)).index = 0 := rfl
  rw [Context.foldl_good_iff hgood (Nat.zero_le _), hindex, Nat.zero_add]
  exact ⟨fun h => ⟨h.1, h.2⟩, fun h => ⟨h.fine, h.takes⟩⟩

/-- What is stored in the end, when the tags suffice. -/
theorem getProfiles_of_fits {xmlstr : List UInt8} (h : Fits xmlstr) (hpos : 0 < counted xmlstr) :
    ∃ c, onvifMediaServiceGetProfiles 200 (some xmlstr) = some c ∧ c.Good ∧ c.profsize = counted xmlstr ∧
      c.tokens = (labels xmlstr).filterMap tokenOf := by
  have hgood := (good_iff_fits xmlstr).mpr h
  have htokens := Context.foldl_tokens (c := .start (counted xmlstr)) (Nat.zero_le _)
    (List.length_replicate ..) hgood
  have hsize := Context.foldl_profsize (.start (counted xmlstr)) (labels xmlstr)
  refine ⟨_, onvifMediaServiceGetProfiles_of_pos hpos, ?_⟩
  generalize (labels xmlstr).foldl Context.step (.start (counted xmlstr)) = c at hgood htokens hsize
  have hkeeps : c.Keeps (c.store 0 fun p => { p with httpRespStatus := 200 }) :=
    Context.keeps_store (by rw [hsize]; exact hpos) fun _ => rfl
  refine ⟨hkeeps.good_iff.mpr hgood, hkeeps.profsize.trans hsize, ?_⟩
  rw [Context.tokens, hkeeps.tokens, hkeeps.index]
  exact htokens

/-- Every write is within the profiles exactly when there are none, or the tags suffice. -/
theorem inBounds_iff (xmlstr : List UInt8) : InBounds xmlstr ↔ counted xmlstr = 0 ∨ Fits xmlstr := by
  rcases Nat.eq_zero_or_pos (counted xmlstr) with hzero | hpos
  · refine iff_of_true ⟨_, _, xmlLabel2_eq xmlstr, onvifMediaServiceGetProfiles_of_zero hzero, rfl, ?_⟩ (.inl hzero)
    intro i hi
    cases hi
  · rw [or_iff_right (Nat.pos_iff_ne_zero.mp hpos)]
    constructor
    · rintro ⟨size, c, hsize, hc, hundefined, hwrites⟩
      rw [onvifMediaServiceGetProfiles_of_pos hpos] at hc
      rw [xmlLabel2_eq] at hsize
      cases hc
      cases hsize
      apply (good_iff_fits xmlstr).mp
      refine ⟨hundefined, fun i hi => ?_⟩
      rw [Context.foldl_profsize]
      exact hwrites i (List.mem_append_left _ hi)
    · intro h
      obtain ⟨c, hc, hgood, hsize, -⟩ := getProfiles_of_fits h hpos
      exact ⟨_, c, xmlLabel2_eq xmlstr, hc, hgood.1, hsize ▸ hgood.2⟩

end ProgrammingPath.Onvif
