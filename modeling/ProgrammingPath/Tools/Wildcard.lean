import Mathlib.Data.List.Infix
import Mathlib.Logic.Basic

/-!
# Search with wildcards (`public_tools/stringex.c`)

A pattern of `strstr2` is made of ordinary characters, `%?` for one character, `%*` for any number of
them, and `%%` for a percent sign. The comment says so; the matcher has no branch for `%%`, whose two
signs it compares with the text one by one, and it leaves its loops at the end of the text, so a `%*`
that begins there is never looked at.
-/

namespace ProgrammingPath.Wildcard

/-! ## What patterns mean -/

/-- What one place of a pattern stands for. -/
inductive Piece
  | lit (c : UInt8)
  | one
  | any
  deriving DecidableEq

/-- The whole text matches. -/
def Matches : List Piece → List UInt8 → Prop
  | [], s => s = []
  | .lit c :: p, s => ∃ r, s = c :: r ∧ Matches p r
  | .one :: p, s => ∃ c r, s = c :: r ∧ Matches p r
  | .any :: p, s => ∃ l r, s = l ++ r ∧ Matches p r

/-- Something at the beginning of the text matches. -/
def Begins (p : List Piece) (s : List UInt8) : Prop := ∃ m r, s = m ++ r ∧ Matches p m

/-- `r` is the first place in the text behind which the rest has the property, if there is one. -/
def IsFirst (P : List UInt8 → Prop) (str : List UInt8) : Option Nat → Prop
  | some i => i ≤ str.length ∧ P (str.drop i) ∧ ∀ j < i, ¬P (str.drop j)
  | none => ∀ i ≤ str.length, ¬P (str.drop i)

/-- An ordinary character. -/
abbrev Ordinary := { c : UInt8 // c ≠ 37 ∧ c ≠ 0 }

/-- The documented language. -/
inductive Item
  | char (c : Ordinary)
  | one
  | any
  | percent
  deriving DecidableEq

def Item.text : Item → List UInt8
  | char c => [c.1]
  | one => [37, 63]
  | any => [37, 42]
  | percent => [37, 37]

def Item.meaning : Item → Piece
  | char c => .lit c.1
  | one => .one
  | any => .any
  | percent => .lit 37

/-- A pattern as it is written. -/
def text (p : List Item) : List UInt8 := p.flatMap Item.text

/-- A pattern as it is documented. -/
def meaning (p : List Item) : List Piece := p.map Item.meaning

/-! ## The code -/

/-- How the inner loop ends: at the end of the pattern, before it, or at a `%*` with the text and the
pattern that are left. -/
inductive Inner
  | matched
  | mismatch
  | star (tmp psub : List UInt8)

/-- The inner loop of `strstr2`. -/
def inner : List UInt8 → List UInt8 → Inner
  | _, [] => .matched
  | [], _ :: _ => .mismatch
  | t :: tmp, [c] => if t ≠ c then .mismatch else inner tmp []
  | t :: tmp, c :: b :: psub =>
    if c = 37 ∧ b = 63 then inner tmp psub
    else if c = 37 ∧ b = 42 then .star (t :: tmp) psub
    else if t ≠ c then .mismatch
    else inner tmp (b :: psub)

theorem length_lt_of_inner {tmp psub tmp' psub' : List UInt8} (h : inner tmp psub = .star tmp' psub') :
    psub'.length < psub.length := by
  fun_induction inner tmp psub with
  | case1 => cases h
  | case2 => cases h
  | case3 => cases h
  | case4 t tmp c heq ih =>
    have hlt := ih h
    exact absurd hlt (Nat.not_lt_zero _)
  | case5 t tmp c b psub hone ih =>
    have hlt := ih h
    exact Nat.lt_succ_of_lt (Nat.lt_succ_of_lt hlt)
  | case6 t tmp c b psub hone hany =>
    cases h
    exact Nat.lt_succ_of_lt (Nat.lt_succ_self _)
  | case7 => cases h
  | case8 t tmp c b psub hone hany heq ih => exact Nat.lt_succ_of_lt (ih h)

/-- `strstr2`; a pointer into `str` is the number of characters before it. -/
def strstr2 (str substr : List UInt8) : Option Nat :=
  match str with
  | [] => none
  | c :: pstr =>
    match _h : inner (c :: pstr) substr with
    | .matched => some 0
    | .star tmp psub => if (strstr2 tmp psub).isSome then some 0 else none
    | .mismatch => (strstr2 pstr substr).map (· + 1)
termination_by (substr.length, str.length)
decreasing_by
  · exact Prod.Lex.left _ _ (length_lt_of_inner _h)
  · exact Prod.Lex.right _ (Nat.lt_succ_self _)

/-! ## What the code takes a pattern for -/

/-- Every percent sign that is followed by neither `?` nor `*` is an ordinary character. -/
def read : List UInt8 → List Piece
  | [] => []
  | [c] => [.lit c]
  | c :: b :: psub =>
    if c = 37 ∧ b = 63 then .one :: read psub
    else if c = 37 ∧ b = 42 then .any :: read psub
    else .lit c :: read (b :: psub)

/-- Something at the beginning of the text matches, and at each `%*` and behind it a character is
left. -/
def Reaches : List Piece → List UInt8 → Prop
  | [], _ => True
  | .lit c :: p, s => ∃ r, s = c :: r ∧ Reaches p r
  | .one :: p, s => ∃ c r, s = c :: r ∧ Reaches p r
  | .any :: p, s => ∃ l r, s = l ++ r ∧ r ≠ [] ∧ Reaches p r

/-- The same, in a text that has not ended. -/
def Reached (p : List Piece) (s : List UInt8) : Prop := s ≠ [] ∧ Reaches p s

variable {p : List Piece} {s t : List UInt8} {str substr : List UInt8}

/-! ## First places -/

/-- There is one first place at most. -/
theorem IsFirst.unique {P : List UInt8 → Prop} {r r' : Option Nat} (h : IsFirst P str r)
    (h' : IsFirst P str r') : r = r' := by
  cases r with
  | none =>
    cases r' with
    | none => rfl
    | some i => exact absurd h'.2.1 (h i h'.1)
  | some i =>
    cases r' with
    | none => exact absurd h.2.1 (h' i h.1)
    | some j =>
      obtain hlt | heq | hgt := Nat.lt_trichotomy i j
      · exact absurd h.2.1 (h'.2.2 i hlt)
      · rw [heq]
      · exact absurd h'.2.1 (h.2.2 j hgt)

/-- Whether there is a place. -/
theorem IsFirst.isSome_iff {P : List UInt8 → Prop} {r : Option Nat} (h : IsFirst P str r) :
    r.isSome = true ↔ ∃ l t, str = l ++ t ∧ P t := by
  cases r with
  | none =>
    refine ⟨fun hsome => absurd hsome Bool.false_ne_true, ?_⟩
    rintro ⟨l, t, rfl, ht⟩
    have hnot := h l.length (by simp)
    rw [List.drop_left] at hnot
    exact absurd ht hnot
  | some i => exact ⟨fun _ => ⟨str.take i, str.drop i, (List.take_append_drop i str).symm, h.2.1⟩, fun _ => rfl⟩

/-- One character further on. -/
theorem IsFirst.cons {P : List UInt8 → Prop} {c : UInt8} {r : Option Nat} (hnot : ¬P (c :: str))
    (h : IsFirst P str r) : IsFirst P (c :: str) (r.map (· + 1)) := by
  cases r with
  | none =>
    intro i hi
    cases i with
    | zero => exact hnot
    | succ i => exact h i (Nat.le_of_succ_le_succ hi)
  | some i =>
    refine ⟨Nat.succ_le_succ h.1, h.2.1, fun j hj => ?_⟩
    cases j with
    | zero => exact hnot
    | succ j => exact h.2.2 j (Nat.lt_of_succ_lt_succ hj)

/-- The first place of all. -/
theorem IsFirst.zero {P : List UInt8 → Prop} (h : P str) : IsFirst P str (some 0) :=
  ⟨Nat.zero_le _, h, fun j hj => absurd hj (Nat.not_lt_zero j)⟩

/-- No place at all. -/
theorem IsFirst.none_of {P : List UInt8 → Prop} (h : ∀ t, t <:+ str → ¬P t) : IsFirst P str none :=
  fun i _ => h _ (List.drop_suffix i str)

/-! ## The code finds the first place of its own reading -/

theorem reaches_any (hp : Reaches (.any :: p) s) : s ≠ [] := by
  obtain ⟨l, r, rfl, hr, -⟩ := hp
  exact fun hnil => hr (List.append_eq_nil_iff.mp hnil).2

/-- Nothing but the empty pattern is found at the end of the text. -/
theorem reaches_nil : Reaches p [] ↔ p = [] := by
  cases p with
  | nil => exact ⟨fun _ => rfl, fun _ => trivial⟩
  | cons x p =>
    refine ⟨fun h => ?_, fun h => absurd h (List.cons_ne_nil x p)⟩
    cases x with
    | lit c =>
      obtain ⟨r, hr, -⟩ := h
      exact absurd hr.symm (List.cons_ne_nil c r)
    | one =>
      obtain ⟨c, r, hr, -⟩ := h
      exact absurd hr.symm (List.cons_ne_nil c r)
    | any => exact absurd rfl (reaches_any h)

/-- What the inner loop says about the place where it began, and, at a `%*`, about all places behind
it. -/
def Inner.Says (o : Inner) (p : List Piece) (s : List UInt8) : Prop :=
  match o with
  | .matched => Reaches p s
  | .mismatch => ¬Reaches p s
  | .star tmp psub =>
    ((∃ l r, tmp = l ++ r ∧ Reached (read psub) r) → Reaches p s) ∧
      ∀ t, t <:+ s → Reaches p t → ∃ l r, tmp = l ++ r ∧ Reached (read psub) r

/-- A character that the pattern names, and what is said of the text behind it. -/
theorem exists_lit_iff {rest : List UInt8 → Prop} {c : UInt8} :
    (∃ r, s = c :: r ∧ rest r) ↔ ∃ d r, s = d :: r ∧ (Piece.lit c = .one ∨ Piece.lit c = .lit d) ∧ rest r := by
  constructor
  · rintro ⟨r, rfl, hr⟩
    exact ⟨c, r, rfl, Or.inr rfl, hr⟩
  · rintro ⟨d, r, rfl, hd, hr⟩
    have hdc : Piece.lit c = .lit d := hd.resolve_left (fun h => by cases h)
    cases hdc
    exact ⟨r, rfl, hr⟩

theorem exists_one_iff {rest : List UInt8 → Prop} :
    (∃ c r, s = c :: r ∧ rest r) ↔ ∃ c r, s = c :: r ∧ (Piece.one = .one ∨ Piece.one = .lit c) ∧ rest r := by
  constructor
  · rintro ⟨c, r, rfl, hr⟩
    exact ⟨c, r, rfl, Or.inl rfl, hr⟩
  · rintro ⟨c, r, rfl, -, hr⟩
    exact ⟨c, r, rfl, hr⟩

/-- A piece that stands for one character. -/
theorem reaches_cons {x : Piece} (hx : x ≠ .any) :
    Reaches (x :: p) s ↔ ∃ c r, s = c :: r ∧ (x = .one ∨ x = .lit c) ∧ Reaches p r := by
  cases x with
  | lit c => exact exists_lit_iff
  | one => exact exists_one_iff
  | any => exact absurd rfl hx

/-- One more character of the text and one more piece of the pattern. -/
theorem Inner.Says.cons {o : Inner} {x : Piece} {c : UInt8} (ho : o.Says p s) (hx : x ≠ .any)
    (hc : x = .one ∨ x = .lit c) : o.Says (x :: p) (c :: s) := by
  cases o with
  | matched => exact (reaches_cons hx).mpr ⟨c, s, rfl, hc, ho⟩
  | mismatch =>
    intro h
    obtain ⟨d, r, heq, -, hr⟩ := (reaches_cons hx).mp h
    cases heq
    exact ho hr
  | star tmp psub =>
    refine ⟨fun hfound => (reaches_cons hx).mpr ⟨c, s, rfl, hc, ho.1 hfound⟩, fun t ht h => ?_⟩
    obtain ⟨d, r, rfl, -, hr⟩ := (reaches_cons hx).mp h
    have hsuffix : r <:+ s := by
      rcases List.suffix_cons_iff.mp ht with heq | hsuffix
      · cases heq
        exact List.suffix_rfl
      · exact (List.suffix_cons d r).trans hsuffix
    exact ho.2 r hsuffix hr

theorem read_ne_nil (c : UInt8) (psub : List UInt8) : read (c :: psub) ≠ [] := by
  cases psub with
  | nil => exact List.cons_ne_nil _ _
  | cons b psub =>
    rw [read]
    split
    · exact List.cons_ne_nil _ _
    · split
      · exact List.cons_ne_nil _ _
      · exact List.cons_ne_nil _ _

/-- An ordinary character that is not that of the text. -/
theorem not_reaches_lit {c d : UInt8} (hne : d ≠ c) : ¬Reaches (.lit c :: p) (d :: s) := by
  rintro ⟨r, heq, -⟩
  cases heq
  exact hne rfl

theorem inner_means (s substr : List UInt8) : (inner s substr).Says (read substr) s := by
  fun_induction inner s substr with
  | case1 s => exact trivial
  | case2 c psub => exact fun h => read_ne_nil c psub (reaches_nil.mp h)
  | case3 t tmp c hne => exact not_reaches_lit hne
  | case4 t tmp c heq ih =>
    have hc : t = c := not_not.mp heq
    exact ih.cons (fun h => by cases h) (Or.inr (congrArg Piece.lit hc.symm))
  | case5 t tmp c b psub hone ih =>
    rw [read, if_pos hone]
    exact ih.cons (fun h => by cases h) (Or.inl rfl)
  | case6 t tmp c b psub hone hany =>
    rw [read, if_neg hone, if_pos hany]
    refine ⟨fun ⟨l, r, heq, hr⟩ => ⟨l, r, heq, hr.1, hr.2⟩, ?_⟩
    rintro _ ⟨l', heq⟩ ⟨l, r, rfl, hr⟩
    exact ⟨l' ++ l, r, by rw [List.append_assoc, heq], hr⟩
  | case7 t tmp c b psub hone hany hne =>
    rw [read, if_neg hone, if_neg hany]
    exact not_reaches_lit hne
  | case8 t tmp c b psub hone hany heq ih =>
    have hc : t = c := not_not.mp heq
    rw [read, if_neg hone, if_neg hany]
    exact ih.cons (fun h => by cases h) (Or.inr (congrArg Piece.lit hc.symm))

/-- The code finds the first place of its own reading. -/
theorem isFirst_strstr2 (str substr : List UInt8) : IsFirst (Reached (read substr)) str (strstr2 str substr) := by
  fun_induction strstr2 str substr with
  | case1 substr => exact fun i _ h => h.1 List.drop_nil
  | case2 substr c pstr hinner =>
    have hmeans := inner_means (c :: pstr) substr
    rw [hinner] at hmeans
    exact IsFirst.zero ⟨List.cons_ne_nil c pstr, hmeans⟩
  | case3 substr c pstr tmp psub hinner hsome ih =>
    have hmeans := inner_means (c :: pstr) substr
    rw [hinner] at hmeans
    exact IsFirst.zero ⟨List.cons_ne_nil c pstr, hmeans.1 (ih.isSome_iff.mp hsome)⟩
  | case4 substr c pstr tmp psub hinner hnone ih =>
    -- what is not behind this `%*` is not behind a later one either
    have hmeans := inner_means (c :: pstr) substr
    rw [hinner] at hmeans
    exact IsFirst.none_of fun t ht h => hnone (ih.isSome_iff.mpr (hmeans.2 t ht h.2))
  | case5 substr c pstr hinner ih =>
    have hmeans := inner_means (c :: pstr) substr
    rw [hinner] at hmeans
    exact ih.cons fun h => hmeans h.2

/-! ## Patterns without a percent sign -/

/-- The end of the pattern leaves open how much of the text it takes. -/
def Open (p : List Piece) : Prop := p = [] ∨ p.getLast? = some .any

theorem not_open_cons {x : Piece} (hx : x ≠ .any) : Open (x :: p) ↔ p ≠ [] ∧ Open p := by
  cases p with
  | nil => simp [Open, hx]
  | cons y p => simp [Open]

theorem open_any : Open (.any :: p) ↔ Open p := by
  cases p with
  | nil => simp [Open]
  | cons y p => simp [Open]

theorem matches_cons {x : Piece} (hx : x ≠ .any) :
    Matches (x :: p) s ↔ ∃ c r, s = c :: r ∧ (x = .one ∨ x = .lit c) ∧ Matches p r := by
  cases x with
  | lit c => exact exists_lit_iff
  | one => exact exists_one_iff
  | any => exact absurd rfl hx

/-- What the code accepts is a match that leaves a character behind it where the end is open. -/
theorem reached_iff : Reached p s ↔ ∃ m r, s = m ++ r ∧ Matches p m ∧ (Open p → r ≠ []) := by
  induction p generalizing s with
  | nil =>
    constructor
    · rintro ⟨hne, -⟩
      exact ⟨[], s, rfl, rfl, fun _ => hne⟩
    · rintro ⟨_, r, rfl, rfl, hr⟩
      exact ⟨hr (Or.inl rfl), trivial⟩
  | cons x p ih =>
    by_cases hx : x = .any
    · subst hx
      constructor
      · rintro ⟨-, l, r, rfl, hne, hr⟩
        obtain ⟨m, r', rfl, hm, hopen⟩ := ih.mp ⟨hne, hr⟩
        exact ⟨l ++ m, r', (List.append_assoc l m r').symm, ⟨l, m, rfl, hm⟩, fun h => hopen (open_any.mp h)⟩
      · rintro ⟨_, r, rfl, ⟨l, m, rfl, hm⟩, hopen⟩
        obtain ⟨hne, hr⟩ := ih.mpr ⟨m, r, rfl, hm, fun h => hopen (open_any.mpr h)⟩
        have hreach : Reaches (.any :: p) (l ++ m ++ r) := ⟨l, m ++ r, List.append_assoc l m r, hne, hr⟩
        exact ⟨reaches_any hreach, hreach⟩
    · rw [Reached, reaches_cons hx, not_open_cons hx]
      constructor
      · rintro ⟨-, c, r, rfl, hc, hr⟩
        by_cases hp : p = []
        · subst hp
          exact ⟨[c], r, rfl, (matches_cons hx).mpr ⟨c, [], rfl, hc, rfl⟩, fun h => absurd rfl h.1⟩
        · have hne : r ≠ [] := fun hnil => hp (reaches_nil.mp (hnil ▸ hr))
          obtain ⟨m, r', rfl, hm, hopen⟩ := ih.mp ⟨hne, hr⟩
          exact ⟨c :: m, r', rfl, (matches_cons hx).mpr ⟨c, m, rfl, hc, hm⟩, fun h => hopen h.2⟩
      · rintro ⟨_, r, rfl, hm, hopen⟩
        obtain ⟨c, m, rfl, hc, hm⟩ := (matches_cons hx).mp hm
        refine ⟨List.cons_ne_nil _ _, c, m ++ r, rfl, hc, ?_⟩
        by_cases hp : p = []
        · subst hp
          exact trivial
        · exact (ih.mpr ⟨m, r, rfl, hm, fun h => hopen ⟨hp, h⟩⟩).2

/-- What begins at an earlier place is found there when it is found at a later one: the `%*` takes
what is between. -/
theorem reaches_of_suffix (hany : .any ∈ p) (hs : Begins p s) (hsuffix : t <:+ s) (ht : Reaches p t) :
    Reaches p s := by
  induction p generalizing s t with
  | nil => exact absurd hany List.not_mem_nil
  | cons x p ih =>
    by_cases hx : x = .any
    · subst hx
      obtain ⟨l, r, rfl, hne, hr⟩ := ht
      obtain ⟨l', rfl⟩ := hsuffix
      exact ⟨l' ++ l, r, (List.append_assoc l' l r).symm, hne, hr⟩
    · have hrest : .any ∈ p := (List.mem_cons.mp hany).resolve_left fun h => hx h.symm
      obtain ⟨m, r, rfl, hm⟩ := hs
      obtain ⟨c, m, rfl, hc, hm⟩ := (matches_cons hx).mp hm
      obtain ⟨d, t, rfl, -, ht⟩ := (reaches_cons hx).mp ht
      have hsuffix' : t <:+ m ++ r := by
        rcases List.suffix_cons_iff.mp hsuffix with heq | hsuffix
        · cases heq
          exact List.suffix_rfl
        · exact (List.suffix_cons d t).trans hsuffix
      exact (reaches_cons hx).mpr ⟨c, m ++ r, rfl, hc, ih hrest ⟨m, r, rfl, hm⟩ hsuffix' ht⟩

theorem Reached.begins (h : Reached p s) : Begins p s := by
  obtain ⟨m, r, hs, hm, -⟩ := reached_iff.mp h
  exact ⟨m, r, hs, hm⟩

theorem Begins.reached (hopen : ¬Open p) (h : Begins p s) : Reached p s := by
  obtain ⟨m, r, hs, hm⟩ := h
  exact reached_iff.mpr ⟨m, r, hs, hm, fun h => absurd h hopen⟩

/-- What begins before a place where the code finds the pattern is found by the code as well. -/
theorem Begins.reached_of_suffix (h : Begins p s) (hsuffix : t <:+ s) (ht : Reached p t) : Reached p s := by
  have hne : s ≠ [] := fun hnil => ht.1 (List.suffix_nil.mp (hnil ▸ hsuffix))
  by_cases hopen : Open p
  · rcases hopen with rfl | hlast
    · exact ⟨hne, trivial⟩
    · exact ⟨hne, reaches_of_suffix (List.mem_of_getLast? hlast) h hsuffix ht.2⟩
  · exact h.reached hopen

/-- The first place is that of the documented language exactly when the pattern, if its end is open
and it occurs at all, occurs with a character behind it. -/
theorem isFirst_begins_iff {r : Option Nat} (hr : IsFirst (Reached p) str r) :
    IsFirst (Begins p) str r ↔
      (Open p → (∃ l t, str = l ++ t ∧ Begins p t) →
        ∃ l m t, str = l ++ m ++ t ∧ Matches p m ∧ t ≠ []) := by
  constructor
  · intro hb hopen hoccurs
    obtain ⟨l, t, rfl, ht⟩ := hr.isSome_iff.mp (hb.isSome_iff.mpr hoccurs)
    obtain ⟨m, t', rfl, hm, hne⟩ := reached_iff.mp ht
    exact ⟨l, m, t', (List.append_assoc l m t').symm, hm, hne hopen⟩
  · intro hcond
    cases r with
    | none =>
      intro i _ hi
      have hoccurs : ∃ l t, str = l ++ t ∧ Begins p t := ⟨_, _, (List.take_append_drop i str).symm, hi⟩
      have hreached : ∃ l t, str = l ++ t ∧ Reached p t := by
        by_cases hopen : Open p
        · obtain ⟨l, m, t, rfl, hm, hne⟩ := hcond hopen hoccurs
          exact ⟨l, m ++ t, List.append_assoc l m t, reached_iff.mpr ⟨m, t, rfl, hm, fun _ => hne⟩⟩
        · exact ⟨_, _, (List.take_append_drop i str).symm, hi.reached hopen⟩
      exact Bool.false_ne_true (hr.isSome_iff.mpr hreached)
    | some i =>
      refine ⟨hr.1, hr.2.1.begins, fun j hj hbegins => hr.2.2 j hj ?_⟩
      have hsuffix : str.drop i <:+ str.drop j := by
        rw [← Nat.add_sub_cancel' (Nat.le_of_lt hj), ← List.drop_drop]
        exact List.drop_suffix _ _
      exact hbegins.reached_of_suffix hsuffix hr.2.1

/-! ## The result -/

theorem read_cons_of_ne {c : UInt8} (hc : c ≠ 37) (psub : List UInt8) :
    read (c :: psub) = .lit c :: read psub := by
  cases psub with
  | nil => rfl
  | cons b psub => rw [read, if_neg fun h => hc h.1, if_neg fun h => hc h.1]

/-- A pattern without a percent sign is read as it is meant. -/
theorem read_text {p : List Item} (h : .percent ∉ p) : read (text p) = meaning p := by
  induction p with
  | nil => rfl
  | cons x p ih =>
    have hrest := ih fun hp => h (List.mem_cons_of_mem x hp)
    cases x with
    | char c => exact (read_cons_of_ne c.2.1 _).trans (congrArg _ hrest)
    | one => exact congrArg _ hrest
    | any => exact congrArg _ hrest
    | percent => exact absurd List.mem_cons_self h

/-- `strstr2` returns what is documented. -/
def Right (str : List UInt8) (p : List Item) : Prop :=
  IsFirst (Begins (meaning p)) str (strstr2 str (text p))

/-- The letter c. -/
def letterC : Ordinary := ⟨99, by decide⟩

end ProgrammingPath.Wildcard
