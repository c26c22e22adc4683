import ProgrammingPath.Lib.StringPointer

/-!
# The parameters of a challenge

`digest_calc` scans the parameters of `WWW-Authenticate` with one pointer: a name goes up to `=`, a value up to the
closing quote or the comma, and what belongs to `realm`, `nonce` and `stale` is copied to an array on the stack.
-/

namespace ProgrammingPath.Rtsp

open ProgrammingPath.Lib

/-! ## The scanner -/

/-- The sizes of `realm_str`, `nonce_str` and `stale_str`. -/
def realmSize : Nat := 100

def nonceSize : Nat := 33

def staleSize : Nat := 10

/-- `realm_str`, `nonce_str` and `stale_str`. -/
structure Scan where
  realm : Mem
  nonce : Mem
  stale : Mem

/-- What `memset` leaves. -/
def Scan.zero : Scan := ⟨.zero, .zero, .zero⟩

def inQuotes (b : UInt8) : Bool := b != 0 && b != 13 && b != 10 && b != 34

def beforeComma (b : UInt8) : Bool := b != 0 && b != 13 && b != 10 && b != 44

/-- The value behind a `=`, and where the next name begins. An empty value in quotes is taken for one without. -/
def scanValue (ptr : List UInt8) : List UInt8 × List UInt8 :=
  let ptr := ptr.dropWhile (· == 32)
  let pvalue := if ptr.head? = some 34 then ptr.drop 1 else ptr
  let pquote := if ptr.head? = some 34 then pvalue.dropWhile inQuotes else pvalue
  let pcomma := pquote.dropWhile beforeComma
  let pvalueLen :=
    if pvalue.length - pquote.length = 0 then pvalue.length - pcomma.length else pvalue.length - pquote.length
  (pvalue.take pvalueLen, pcomma.dropWhile fun b => b == 44 || b == 32)

/-- `strncpy` of so many bytes under a condition: `none` when they do not fit. -/
def copyIf (named : Bool) (field : Mem) (size : Nat) (value : List UInt8) : Option Mem :=
  if named = true then if value.length ≤ size then some (field.write 0 value) else none
  else some field

/-- What is copied of a parameter. -/
def Scan.store (st : Scan) (pname value : List UInt8) : Option Scan :=
  (copyIf (startsCI (text "realm=") pname) st.realm realmSize value).bind fun realm =>
  (copyIf (startsCI (text "nonce=") pname) st.nonce nonceSize value).bind fun nonce =>
  (copyIf (startsCI (text "stale=") pname) st.stale staleSize value).map fun stale => ⟨realm, nonce, stale⟩

/-- The loop of `digest_calc`, with `pname` and `ptr` as what lies behind them; `fuel` bounds the number of turns. -/
def digestLoop : Nat → Option (List UInt8) → List UInt8 → Scan → Option Scan
  | 0, _, _, _ => none
  | fuel + 1, pname, ptr, st =>
    match ptr with
    | [] => some st
    | b :: rest =>
      let pname := pname.getD ptr
      if b = 61 then
        (st.store pname (scanValue rest).1).bind fun st => digestLoop fuel none (scanValue rest).2 st
      else digestLoop fuel (some pname) rest st

/-! ## Challenges -/

/-- A character of a name or of a value without quotes. -/
def tokenChar (b : UInt8) : Bool := b ∉ [0, 10, 13, 32, 34, 44, 61]

/-- A parameter with its value in quotes or without, so many blanks before the comma behind it and so many after. -/
structure Param where
  name : List UInt8
  quoted : Bool
  value : List UInt8
  gap : Nat
  lead : Nat
  name_ne : name ≠ []
  name_chars : ∀ b ∈ name, tokenChar b = true
  value_chars : ∀ b ∈ value, if quoted = true then inQuotes b = true else tokenChar b = true
  value_ne : quoted = false → value ≠ []

namespace Param

variable (p : Param)

/-- The value with its quotes. -/
def shown : List UInt8 := if p.quoted = true then 34 :: (p.value ++ [34]) else p.value

def blanks : List UInt8 := List.replicate p.gap 32

/-- What is taken for the value. -/
def read : List UInt8 :=
  if p.quoted = true then if p.value = [] then 34 :: p.blanks else p.value
  else p.value ++ p.blanks

/-- The parameter has this name, in whatever case. -/
def named (name : String) : Bool := p.name.map toLower == (text name).map toLower

/-- The value is not empty, and blanks behind it are behind a quote. -/
def Plain : Prop := if p.quoted = true then p.value ≠ [] else p.gap = 0

end Param

/-- A list of parameters. -/
def paramsText : List Param → List UInt8
  | [] => []
  | [p] => p.name ++ 61 :: (p.shown ++ p.blanks)
  | p :: q :: ps =>
    p.name ++ 61 :: (p.shown ++ (p.blanks ++ 44 :: (List.replicate p.lead 32 ++ paramsText (q :: ps))))

/-- A challenge with one realm and one nonce. -/
structure Challenge where
  params : List Param
  realm : Param
  nonce : Param
  realm_one : params.filter (·.named "realm") = [realm]
  nonce_one : params.filter (·.named "nonce") = [nonce]
  realm_le : realm.value.length ≤ 99

def Challenge.text (ch : Challenge) : List UInt8 := Lib.text "Digest " ++ paramsText ch.params

/-! ## What is taken for a value -/

section

variable {p : Param} {ps : List Param} {rest : List UInt8} {b : UInt8} {fuel : Nat} {st st' : Scan}

theorem tokenChar_facts (h : tokenChar b = true) :
    b ≠ 32 ∧ b ≠ 34 ∧ b ≠ 44 ∧ b ≠ 61 ∧ beforeComma b = true := by
  rw [tokenChar, decide_eq_true_iff] at h
  simp only [List.mem_cons, List.not_mem_nil, or_false, not_or] at h
  obtain ⟨h0, h10, h13, h32, h34, h44, h61⟩ := h
  refine ⟨h32, h34, h44, h61, ?_⟩
  simp only [beforeComma, Bool.and_eq_true, bne_iff_ne]
  exact ⟨⟨⟨h0, h13⟩, h10⟩, h44⟩

/-- The value ends at the comma or at the end. -/
theorem dropWhile_stop {pred : UInt8 → Bool} {l : List UInt8} (hl : ∀ b ∈ l, pred b = true)
    (hrest : ∀ b ∈ rest.head?, pred b = false) : (l ++ rest).dropWhile pred = rest := by
  rw [List.dropWhile_append_of_pos hl]
  cases rest with
  | nil => rfl
  | cons b rest => rw [List.dropWhile_cons_of_neg (by rw [hrest b rfl]; exact Bool.false_ne_true)]

theorem blanks_beforeComma : ∀ b ∈ p.blanks, beforeComma b = true := by
  intro b hb
  rw [List.eq_of_mem_replicate hb]
  rfl

/-- The part between two pointers. -/
theorem take_sub (l rest : List UInt8) : (l ++ rest).take ((l ++ rest).length - rest.length) = l := by
  rw [List.length_append, Nat.add_sub_cancel, List.take_left]

theorem scanValue_quoted (hquoted : p.quoted = true) (hrest : ∀ b ∈ rest.head?, b = 44) :
    scanValue (p.shown ++ (p.blanks ++ rest)) = (p.read, rest.dropWhile fun b => b == 44 || b == 32) := by
  have hchars : ∀ b ∈ p.value, inQuotes b = true := by
    intro b hb
    have hchar := p.value_chars b hb
    rwa [if_pos hquoted] at hchar
  have hshown : p.shown ++ (p.blanks ++ rest) = 34 :: (p.value ++ 34 :: (p.blanks ++ rest)) := by
    rw [Param.shown, if_pos hquoted]
    simp only [List.cons_append, List.append_assoc, List.nil_append]
  have hquote : (p.value ++ 34 :: (p.blanks ++ rest)).dropWhile inQuotes = 34 :: (p.blanks ++ rest) :=
    dropWhile_stop hchars fun b hb => by rw [← Option.some_inj.mp hb]; rfl
  have hcomma : ((34 :: p.blanks) ++ rest).dropWhile beforeComma = rest := by
    apply dropWhile_stop
    · intro b hb
      rcases List.mem_cons.mp hb with rfl | hb
      · rfl
      · exact blanks_beforeComma b hb
    · intro b hb
      rw [hrest b hb]
      rfl
  rw [List.cons_append] at hcomma
  have hlen : (p.value ++ 34 :: (p.blanks ++ rest)).length - (34 :: (p.blanks ++ rest)).length =
      p.value.length := by rw [List.length_append, Nat.add_sub_cancel]
  have hfirst : (34 :: (p.value ++ 34 :: (p.blanks ++ rest))).dropWhile (· == 32) =
      34 :: (p.value ++ 34 :: (p.blanks ++ rest)) := List.dropWhile_cons_of_neg (by decide)
  rw [scanValue, hshown, hfirst]
  simp only [List.head?_cons, if_true, List.drop_one, List.tail_cons, hquote, hcomma, hlen]
  by_cases hempty : p.value = []
  · have hread : p.read = 34 :: p.blanks := by rw [Param.read, if_pos hquoted, if_pos hempty]
    rw [hempty, List.length_nil, if_pos rfl, List.nil_append, hread, ← List.cons_append, take_sub]
  · have hread : p.read = p.value := by rw [Param.read, if_pos hquoted, if_neg hempty]
    have hne : p.value.length ≠ 0 := fun h => hempty (List.length_eq_zero_iff.mp h)
    rw [if_neg hne, hread, List.take_left]

theorem scanValue_token (hquoted : p.quoted = false) (hrest : ∀ b ∈ rest.head?, b = 44) :
    scanValue (p.shown ++ (p.blanks ++ rest)) = (p.read, rest.dropWhile fun b => b == 44 || b == 32) := by
  have hchars : ∀ b ∈ p.value, tokenChar b = true := by
    intro b hb
    have hchar := p.value_chars b hb
    rwa [hquoted, if_neg Bool.false_ne_true] at hchar
  have hshown : p.shown ++ (p.blanks ++ rest) = p.read ++ rest := by
    rw [Param.shown, Param.read, hquoted, if_neg Bool.false_ne_true, if_neg Bool.false_ne_true, List.append_assoc]
  obtain ⟨b, value, hvalue⟩ := List.exists_cons_of_ne_nil (p.value_ne hquoted)
  obtain ⟨h32, h34, -⟩ := tokenChar_facts (hchars b (by rw [hvalue]; exact List.mem_cons_self))
  obtain ⟨more, hread⟩ : ∃ more, p.read = b :: more :=
    ⟨value ++ p.blanks, by rw [Param.read, hquoted, if_neg Bool.false_ne_true, hvalue, List.cons_append]⟩
  have hcomma : (p.read ++ rest).dropWhile beforeComma = rest := by
    apply dropWhile_stop
    · intro b hb
      rw [Param.read, hquoted, if_neg Bool.false_ne_true, List.mem_append] at hb
      rcases hb with hb | hb
      · exact (tokenChar_facts (hchars b hb)).2.2.2.2
      · exact blanks_beforeComma b hb
    · intro b hb
      rw [hrest b hb]
      rfl
  have hfirst : (p.read ++ rest).dropWhile (· == 32) = p.read ++ rest := by
    rw [hread, List.cons_append, List.dropWhile_cons_of_neg (by simpa using h32)]
  have hhead : (p.read ++ rest).head? ≠ some 34 := by
    rw [hread, List.cons_append, List.head?_cons, ne_eq, Option.some_inj]
    exact h34
  rw [scanValue, hshown, hfirst]
  simp only [if_neg hhead, hcomma, Nat.sub_self, if_true]
  rw [take_sub]

/-- The value that is taken, whatever is behind the comma. -/
theorem scanValue_eq (p : Param) (hrest : ∀ b ∈ rest.head?, b = 44) :
    scanValue (p.shown ++ (p.blanks ++ rest)) = (p.read, rest.dropWhile fun b => b == 44 || b == 32) := by
  cases hquoted : p.quoted with
  | true => exact scanValue_quoted hquoted hrest
  | false => exact scanValue_token hquoted hrest

/-- The value is taken as it is just when it is plain. -/
theorem read_eq_value_iff (p : Param) : p.read = p.value ↔ p.Plain := by
  rw [Param.read, Param.Plain]
  cases hquoted : p.quoted with
  | true =>
    rw [if_pos rfl, if_pos rfl]
    by_cases hempty : p.value = []
    · rw [if_pos hempty, hempty]
      exact iff_of_false (List.cons_ne_nil _ _) fun h => h rfl
    · rw [if_neg hempty]
      exact iff_of_true rfl hempty
  | false =>
    rw [if_neg Bool.false_ne_true, if_neg Bool.false_ne_true, List.append_right_eq_self, Param.blanks,
      List.replicate_eq_nil_iff]

/-- What is taken has no NUL in it. -/
theorem zero_notMem_read (p : Param) : 0 ∉ p.read := by
  have hblanks : 0 ∉ p.blanks := fun h => absurd (List.eq_of_mem_replicate h) (by decide)
  have hchars : 0 ∉ p.value := by
    intro h
    have hchar := p.value_chars 0 h
    split at hchar
    · exact absurd hchar (by decide)
    · exact absurd hchar (by decide)
  rw [Param.read]
  split
  · split
    · rw [List.mem_cons, not_or]
      exact ⟨by decide, hblanks⟩
    · exact hchars
  · rw [List.mem_append, not_or]
    exact ⟨hchars, hblanks⟩

/-! ## The names -/

theorem startsCI_cons {a : UInt8} {lit l : List UInt8} :
    startsCI (a :: lit) (b :: l) = true ↔ toLower b = toLower a ∧ startsCI lit l = true := by
  rw [startsCI_iff, startsCI_iff, List.length_cons, List.take_succ_cons, List.map_cons, List.map_cons, List.cons.injEq]

/-- Before the `=` stands a name just when it is the whole name. -/
theorem startsCI_name {lit name : List UInt8} (hlit : 61 ∉ lit) (hname : 61 ∉ name) (rest : List UInt8) :
    startsCI (lit ++ [61]) (name ++ 61 :: rest) = true ↔ name.map toLower = lit.map toLower := by
  have heq (b : UInt8) : toLower b = toLower 61 ↔ b = 61 := by
    have hall : ∀ n < 256, toLower (UInt8.ofNat n) = toLower 61 → UInt8.ofNat n = 61 := by decide +kernel
    constructor
    · intro h
      have hb := hall b.toNat b.toNat_lt
      rw [UInt8.ofNat_toNat] at hb
      exact hb h
    · rintro rfl
      rfl
  induction lit generalizing name with
  | nil =>
    cases name with
    | nil => exact iff_of_true rfl rfl
    | cons b name =>
      rw [List.nil_append, List.cons_append, startsCI_cons, heq]
      exact iff_of_false (fun h => hname (h.1 ▸ List.mem_cons_self)) (by simp)
  | cons a lit ih =>
    rw [List.mem_cons, not_or] at hlit
    cases name with
    | nil =>
      rw [List.nil_append, List.cons_append, startsCI_cons]
      exact iff_of_false (fun h => hlit.1 ((heq a).mp h.1.symm).symm) (by simp)
    | cons b name =>
      rw [List.mem_cons, not_or] at hname
      rw [List.cons_append, List.cons_append, startsCI_cons, List.map_cons, List.map_cons, List.cons.injEq]
      exact and_congr_right fun _ => ih hlit.2 hname.2

/-- The name is the one that is looked for. -/
theorem startsCI_named (name : String) (hname : 61 ∉ text name) (p : Param) (rest : List UInt8) :
    startsCI (text name ++ [61]) (p.name ++ 61 :: rest) = p.named name := by
  have hchars : 61 ∉ p.name := fun h => (tokenChar_facts (p.name_chars 61 h)).2.2.2.1 rfl
  rw [Bool.eq_iff_iff, startsCI_name hname hchars, Param.named, beq_iff_eq]

/-! ## The whole list -/

/-- What a parameter does to the arrays. -/
def Scan.assign (st : Scan) (p : Param) : Option Scan :=
  (copyIf (p.named "realm") st.realm realmSize p.read).bind fun realm =>
  (copyIf (p.named "nonce") st.nonce nonceSize p.read).bind fun nonce =>
  (copyIf (p.named "stale") st.stale staleSize p.read).map fun stale => ⟨realm, nonce, stale⟩

theorem store_eq_assign (st : Scan) (p : Param) (rest : List UInt8) :
    st.store (p.name ++ 61 :: rest) p.read = st.assign p := by
  have hrealm := startsCI_named "realm" (by decide) p rest
  have hnonce := startsCI_named "nonce" (by decide) p rest
  have hstale := startsCI_named "stale" (by decide) p rest
  rw [Scan.store, Scan.assign, ← hrealm, ← hnonce, ← hstale]
  rfl

/-- The scanner goes over a name. -/
theorem digestLoop_name {name : List UInt8} (hname : 61 ∉ name) (pname rest : List UInt8) :
    digestLoop (name.length + fuel) (some pname) (name ++ 61 :: rest) st =
      digestLoop fuel (some pname) (61 :: rest) st := by
  induction name with
  | nil => rw [List.length_nil, Nat.zero_add, List.nil_append]
  | cons b name ih =>
    rw [List.mem_cons, not_or] at hname
    rw [List.length_cons, Nat.add_right_comm, List.cons_append, digestLoop]
    simp only [if_neg (Ne.symm hname.1), Option.getD_some]
    exact ih hname.2

/-- One parameter with what is behind it. -/
theorem digestLoop_param (fuel : Nat) (st : Scan) (p : Param) (hrest : ∀ b ∈ rest.head?, b = 44) :
    digestLoop (p.name.length + (fuel + 1)) none (p.name ++ 61 :: (p.shown ++ (p.blanks ++ rest))) st =
      (st.assign p).bind fun st => digestLoop fuel none (rest.dropWhile fun b => b == 44 || b == 32) st := by
  have hchars : 61 ∉ p.name := fun h => (tokenChar_facts (p.name_chars 61 h)).2.2.2.1 rfl
  obtain ⟨b, name, hname⟩ := List.exists_cons_of_ne_nil p.name_ne
  have hb : b ≠ 61 := by
    rintro rfl
    exact hchars (hname ▸ List.mem_cons_self)
  have hmore : 61 ∉ name := fun h => hchars (hname ▸ List.mem_cons_of_mem b h)
  have hfirst : digestLoop (p.name.length + (fuel + 1)) none (p.name ++ 61 :: (p.shown ++ (p.blanks ++ rest))) st =
      digestLoop (fuel + 1) (some (p.name ++ 61 :: (p.shown ++ (p.blanks ++ rest))))
        (61 :: (p.shown ++ (p.blanks ++ rest))) st := by
    rw [hname, List.length_cons, Nat.add_right_comm, List.cons_append, digestLoop]
    simp only [if_neg hb, Option.getD_none]
    exact digestLoop_name hmore _ _
  rw [hfirst, digestLoop]
  simp only [if_true, Option.getD_some, scanValue_eq p hrest, store_eq_assign]

/-- A list begins with a name. -/
theorem dropWhile_lead (n : Nat) (p : Param) (ps : List Param) :
    ((44 : UInt8) :: (List.replicate n 32 ++ paramsText (p :: ps))).dropWhile (fun b => b == 44 || b == 32) =
      paramsText (p :: ps) := by
  obtain ⟨b, name, hname⟩ := List.exists_cons_of_ne_nil p.name_ne
  obtain ⟨h32, -, h44, -⟩ := tokenChar_facts (p.name_chars b (by rw [hname]; exact List.mem_cons_self))
  obtain ⟨more, htext⟩ : ∃ more, paramsText (p :: ps) = b :: more := by
    cases ps with
    | nil => exact ⟨_, by rw [paramsText, hname, List.cons_append]⟩
    | cons q ps => exact ⟨_, by rw [paramsText, hname, List.cons_append]⟩
  rw [← List.cons_append]
  apply dropWhile_stop
  · intro c hc
    rcases List.mem_cons.mp hc with rfl | hc
    · rfl
    · rw [List.eq_of_mem_replicate hc]
      rfl
  · intro c hc
    rw [htext, List.head?_cons] at hc
    obtain rfl := Option.some_inj.mp hc
    simp [h32, h44]

/-- The scanner takes one parameter after the other. -/
theorem digestLoop_params (hfuel : (paramsText ps).length < fuel) (st : Scan) :
    digestLoop fuel none (paramsText ps) st = ps.foldlM Scan.assign st := by
  have hempty (fuel : Nat) (st : Scan) : digestLoop (fuel + 1) none [] st = some st := rfl
  induction ps generalizing fuel st with
  | nil =>
    obtain ⟨fuel, rfl⟩ := Nat.exists_eq_succ_of_ne_zero (Nat.ne_of_gt (Nat.zero_lt_of_lt hfuel))
    rfl
  | cons p ps ih =>
    rw [List.foldlM_cons]
    cases ps with
    | nil =>
      have hlen : p.name.length + 2 ≤ fuel := by
        rw [paramsText, List.length_append, List.length_cons] at hfuel
        omega
      obtain ⟨more, rfl⟩ := Nat.exists_eq_add_of_le hlen
      have hparam := digestLoop_param (more + 1) st p
        (show ∀ b ∈ ([] : List UInt8).head?, b = 44 from fun b hb => by cases hb)
      rw [List.append_nil, List.dropWhile_nil] at hparam
      rw [paramsText, show p.name.length + 2 + more = p.name.length + (more + 1 + 1) by omega, hparam]
      simp only [hempty]
      rfl
    | cons q ps =>
      have hlen : p.name.length + 1 + (paramsText (q :: ps)).length < fuel := by
        rw [paramsText] at hfuel
        simp only [List.length_append, List.length_cons] at hfuel
        omega
      obtain ⟨more, rfl⟩ := Nat.exists_eq_add_of_le (Nat.le_of_lt hlen)
      have hparam := digestLoop_param ((paramsText (q :: ps)).length + more) st p
        (show ∀ b ∈ (44 :: (List.replicate p.lead 32 ++ paramsText (q :: ps))).head?, b = 44 from
          fun b hb => (Option.some_inj.mp hb).symm)
      rw [dropWhile_lead] at hparam
      rw [paramsText, show p.name.length + 1 + (paramsText (q :: ps)).length + more =
        p.name.length + ((paramsText (q :: ps)).length + more + 1) by omega, hparam]
      apply Option.bind_congr
      intro st' _
      exact ih (by omega) st'

/-! ## What the arrays hold -/

/-- The values that are copied to an array fit. -/
def AllFit (name : String) (size : Nat) (ps : List Param) : Prop :=
  ∀ p ∈ ps, p.named name = true → p.read.length ≤ size

/-- An array with the values of all parameters of a name copied to it. -/
def copied (name : String) (ps : List Param) (field : Mem) : Mem :=
  ps.foldl (fun field p => if p.named name = true then field.write 0 p.read else field) field

theorem copyIf_eq_some_iff {named : Bool} {field field' : Mem} {size : Nat} {value : List UInt8} :
    copyIf named field size value = some field' ↔
      (named = true → value.length ≤ size) ∧ field' = if named = true then field.write 0 value else field := by
  cases named with
  | false =>
    rw [copyIf, if_neg Bool.false_ne_true, if_neg Bool.false_ne_true, Option.some_inj]
    exact ⟨fun h => ⟨fun h => absurd h Bool.false_ne_true, h.symm⟩, fun h => h.2.symm⟩
  | true =>
    rw [copyIf, if_pos rfl, if_pos rfl]
    split
    · next h =>
      rw [Option.some_inj]
      exact ⟨fun heq => ⟨fun _ => h, heq.symm⟩, fun heq => heq.2.symm⟩
    · next h => exact iff_of_false (by simp) fun heq => h (heq.1 rfl)

theorem assign_eq_some_iff : st.assign p = some st' ↔
    (AllFit "realm" realmSize [p] ∧ AllFit "nonce" nonceSize [p] ∧ AllFit "stale" staleSize [p]) ∧
      st' = ⟨copied "realm" [p] st.realm, copied "nonce" [p] st.nonce, copied "stale" [p] st.stale⟩ := by
  have hone (name : String) (size : Nat) : AllFit name size [p] ↔ (p.named name = true → p.read.length ≤ size) := by
    rw [AllFit, List.forall_mem_singleton]
  rw [hone, hone, hone, Scan.assign]
  simp only [Option.bind_eq_some_iff, Option.map_eq_some_iff, copyIf_eq_some_iff]
  constructor
  · rintro ⟨realm, ⟨hrealm, rfl⟩, nonce, ⟨hnonce, rfl⟩, stale, ⟨hstale, rfl⟩, rfl⟩
    exact ⟨⟨hrealm, hnonce, hstale⟩, rfl⟩
  · rintro ⟨⟨hrealm, hnonce, hstale⟩, rfl⟩
    exact ⟨_, ⟨hrealm, rfl⟩, _, ⟨hnonce, rfl⟩, _, ⟨hstale, rfl⟩, rfl⟩

theorem allFit_cons (name : String) (size : Nat) :
    AllFit name size (p :: ps) ↔ AllFit name size [p] ∧ AllFit name size ps := by
  rw [AllFit, AllFit, AllFit, List.forall_mem_cons, List.forall_mem_singleton]

theorem foldlM_assign_eq_some_iff : ps.foldlM Scan.assign st = some st' ↔
    (AllFit "realm" realmSize ps ∧ AllFit "nonce" nonceSize ps ∧ AllFit "stale" staleSize ps) ∧
      st' = ⟨copied "realm" ps st.realm, copied "nonce" ps st.nonce, copied "stale" ps st.stale⟩ := by
  induction ps generalizing st with
  | nil =>
    have hnil (name : String) (size : Nat) : AllFit name size [] := fun p h => absurd h List.not_mem_nil
    rw [List.foldlM_nil]
    exact ⟨fun h => ⟨⟨hnil _ _, hnil _ _, hnil _ _⟩, (Option.some_inj.mp h).symm⟩, fun h => h.2 ▸ rfl⟩
  | cons p ps ih =>
    rw [List.foldlM_cons, Option.bind_eq_bind, Option.bind_eq_some_iff, allFit_cons "realm",
      allFit_cons "nonce", allFit_cons "stale"]
    constructor
    · rintro ⟨st1, hfirst, hrest⟩
      obtain ⟨⟨hr, hn, hs⟩, rfl⟩ := assign_eq_some_iff.mp hfirst
      obtain ⟨⟨hrs, hns, hss⟩, rfl⟩ := ih.mp hrest
      exact ⟨⟨⟨hr, hrs⟩, ⟨hn, hns⟩, ⟨hs, hss⟩⟩, rfl⟩
    · rintro ⟨⟨⟨hr, hrs⟩, ⟨hn, hns⟩, ⟨hs, hss⟩⟩, rfl⟩
      exact ⟨_, assign_eq_some_iff.mpr ⟨⟨hr, hn, hs⟩, rfl⟩, ih.mpr ⟨⟨hrs, hns, hss⟩, rfl⟩⟩

/-- Only one value is copied. -/
theorem copied_eq {name : String} (hone : ps.filter (·.named name) = [p]) (field : Mem) :
    copied name ps field = field.write 0 p.read := by
  have hfold : (ps.filter (·.named name)).foldl (fun field (p : Param) => Mem.write field 0 p.read) field =
      copied name ps field := List.foldl_filter
  rw [← hfold, hone]
  rfl

theorem allFit_iff {name : String} {size : Nat} (hone : ps.filter (·.named name) = [p]) :
    AllFit name size ps ↔ p.read.length ≤ size := by
  have hmem (q : Param) : q ∈ ps ∧ q.named name = true ↔ q = p := by
    have hin : q ∈ ps.filter (·.named name) ↔ q ∈ ps ∧ q.named name = true := List.mem_filter
    rw [← hin, hone, List.mem_singleton]
  constructor
  · intro hall
    obtain ⟨hp, hnamed⟩ := (hmem p).mpr rfl
    exact hall p hp hnamed
  · intro hle q hq hnamed
    rw [(hmem q).mp ⟨hq, hnamed⟩]
    exact hle

end

end ProgrammingPath.Rtsp
