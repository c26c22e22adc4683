import ProgrammingPath.Mes.OrderTable

/-!
# Adjusting the sequence of orders

The server sends the new numbers of all orders in one request (`0x07`). The program changes one row
after the other and calls `OnUpdate` in between, which creates an empty order whenever it finds no
order of number 1. `adjustOrders_iff` says for which requests the result is the one asked for:
number 1 must have been given out by the time the old main order loses it.

There is one more case, in which the empty order was in the table all along, as a row without any
data: being stored again does not change it, and if its own entry comes late enough it gets the
number it should.
-/

namespace ProgrammingPath.Mes

open ProgrammingPath.Qt ProgrammingPath.Lib

/-- The number that a request asks for. -/
def OrderIndex.number (e : OrderIndex) : Int := e.serialNumber.toNat

/-- The number that a request asks for an order. -/
def requested (entries : List OrderIndex) (no : QString) : Int :=
  ((entries.find? (·.dispatchNo == no)).map OrderIndex.number).getD 0

/-- The orders a request asks for: all there are, each with its new number. -/
def requestedRows (rows : List OrderRow) (entries : List OrderIndex) : List OrderRow :=
  rows.map (fun r => { r with mainOrderFlag := requested entries r.moDispatchNo })

/-- The dispatch number of the main order. -/
def mainNo (rows : List OrderRow) : QString :=
  ((rows.find? (·.mainOrderFlag == 1)).map OrderRow.moDispatchNo).getD []

/-- A row without any data but its number in the sequence. -/
def Blank (r : OrderRow) : Prop := { r with mainOrderFlag := 1 } = emptyOrder

instance (r : OrderRow) : Decidable (Blank r) := inferInstanceAs (Decidable (_ = _))

/-- The position of the entry that gives out number 1. -/
def posOne (entries : List OrderIndex) : Nat := entries.findIdx (·.number == 1)

/-- The position of the entry for an order. -/
def posNo (entries : List OrderIndex) (no : QString) : Nat := entries.findIdx (·.dispatchNo == no)

/-- A request that lists all `n` orders of a table numbered `1..n`, with a permutation of `1..n`. -/
structure Adjustment (rows : List OrderRow) (entries : List OrderIndex) : Prop where
  flags : (rows.map OrderRow.mainOrderFlag).Perm ((List.range' 1 rows.length).map Int.ofNat)
  nos : (entries.map OrderIndex.dispatchNo).Perm (rows.map OrderRow.moDispatchNo)
  numbers : (entries.map OrderIndex.number).Perm ((List.range' 1 rows.length).map Int.ofNat)

namespace Adjustment

/-! ## One row at a time -/

/-- `UpdateMainOrderFlag` on the rows. -/
def setFlag (rows : List OrderRow) (e : OrderIndex) : List OrderRow :=
  rows.map (fun r => if r.moDispatchNo == e.dispatchNo then { r with mainOrderFlag := e.number } else r)

/-- Only the new numbers, without `OnUpdate`. -/
def setFlags (rows : List OrderRow) (entries : List OrderIndex) : List OrderRow :=
  entries.foldl setFlag rows

/-- What the program does: new number, `OnUpdate`, new number, `OnUpdate`, … -/
def adjustRows (rows : List OrderRow) (entries : List OrderIndex) : List OrderRow :=
  entries.foldl (fun rows e => DB.fillMain (setFlag rows e)) rows

theorem adjustOrders_eq (shop : Shop) (entries : List OrderIndex) :
    (shop.adjustOrders entries).db.order.rows = adjustRows shop.db.order.rows entries ∧
      (shop.adjustOrders entries).db.orderBoy = shop.db.orderBoy := by
  induction entries generalizing shop with
  | nil => exact ⟨rfl, rfl⟩
  | cons e es ih =>
    obtain ⟨hrows, hboys⟩ := ih (shop.onOrderModify e.serialNumber.toNat e.dispatchNo)
    refine ⟨?_, ?_⟩
    · apply hrows.trans
      rw [Shop.onOrderModify, Shop.db_onUpdate, DB.rows_onUpdate]
      rfl
    · apply hboys.trans
      rw [Shop.onOrderModify, Shop.db_onUpdate, DB.orderBoy_onUpdate]
      rfl

variable {rows : List OrderRow} {entries pre post : List OrderIndex}

theorem adjustRows_append :
    adjustRows rows (pre ++ post) = adjustRows (adjustRows rows pre) post := List.foldl_append

/-- As long as there is an order of number 1 after each step, `OnUpdate` does nothing. -/
theorem adjustRows_eq_setFlags
    (h : ∀ pre post, entries = pre ++ post → pre ≠ [] → DB.HasMain (setFlags rows pre)) :
    adjustRows rows entries = setFlags rows entries := by
  induction entries generalizing rows with
  | nil => rfl
  | cons e es ih =>
    have hone : DB.HasMain (setFlag rows e) := h [e] es rfl (by simp)
    have hstep : DB.fillMain (setFlag rows e) = setFlag rows e := if_pos hone
    show adjustRows (DB.fillMain (setFlag rows e)) es = setFlags (setFlag rows e) es
    rw [hstep]
    apply ih
    intro pre post hsplit _
    exact h (e :: pre) post (by rw [hsplit, List.cons_append]) (by simp)

/-! ## The number an order has after some of the entries -/

def flagAfter (entries : List OrderIndex) (no : QString) (f : Int) : Int :=
  entries.foldl (fun f e => if no == e.dispatchNo then e.number else f) f

/-- An order after some of the entries. -/
def numberedBy (entries : List OrderIndex) (r : OrderRow) : OrderRow :=
  { r with mainOrderFlag := flagAfter entries r.moDispatchNo r.mainOrderFlag }

theorem setFlags_eq_map : setFlags rows entries = rows.map (numberedBy entries) := by
  induction entries generalizing rows with
  | nil =>
    have hid : numberedBy [] = id := rfl
    rw [hid, List.map_id]
    rfl
  | cons e es ih =>
    show setFlags (setFlag rows e) es = _
    rw [ih, setFlag, List.map_map]
    apply List.map_congr_left
    intro r _
    simp only [Function.comp]
    split
    · next h => simp only [numberedBy, flagAfter, List.foldl_cons, h, if_true]
    · next h => simp only [numberedBy, flagAfter, List.foldl_cons, h, if_false, Bool.false_eq_true]

theorem flagAfter_of_not_mem {no : QString} {f : Int} (h : no ∉ entries.map OrderIndex.dispatchNo) :
    flagAfter entries no f = f := by
  induction entries generalizing f with
  | nil => rfl
  | cons e es ih =>
    rw [List.map_cons, List.mem_cons, not_or] at h
    show flagAfter es no (if no == e.dispatchNo then e.number else f) = f
    rw [if_neg (by simpa using h.1)]
    exact ih h.2

theorem flagAfter_of_mem {e : OrderIndex} {f : Int}
    (hnd : (entries.map OrderIndex.dispatchNo).Nodup) (he : e ∈ entries) :
    flagAfter entries e.dispatchNo f = e.number := by
  induction entries generalizing f with
  | nil => exact absurd he List.not_mem_nil
  | cons d es ih =>
    rw [List.map_cons, List.nodup_cons] at hnd
    rcases List.mem_cons.mp he with rfl | he
    · show flagAfter es e.dispatchNo (if e.dispatchNo == e.dispatchNo then e.number else f) = e.number
      rw [if_pos (by simp), flagAfter_of_not_mem hnd.1]
    · exact ih hnd.2 he

theorem flagAfter_eq_requested {no : QString} {f : Int}
    (hnd : (entries.map OrderIndex.dispatchNo).Nodup)
    (h : no ∈ entries.map OrderIndex.dispatchNo) : flagAfter entries no f = requested entries no := by
  obtain ⟨e, he, rfl⟩ := List.mem_map.mp h
  have hsome : (entries.find? (·.dispatchNo == e.dispatchNo)).isSome := by
    rw [List.find?_isSome]
    exact ⟨e, he, by simp⟩
  obtain ⟨d, hd⟩ := Option.isSome_iff_exists.mp hsome
  have hdno : d.dispatchNo = e.dispatchNo := by simpa using List.find?_some hd
  rw [requested, hd, ← hdno, flagAfter_of_mem hnd (List.mem_of_find?_eq_some hd)]
  rfl

theorem requested_of_mem {e : OrderIndex} (hnd : (entries.map OrderIndex.dispatchNo).Nodup)
    (he : e ∈ entries) : requested entries e.dispatchNo = e.number := by
  have hflag : flagAfter entries e.dispatchNo 0 = e.number := flagAfter_of_mem hnd he
  rw [← hflag, flagAfter_eq_requested hnd (List.mem_map_of_mem he)]

/-! ## Positions in the list of entries -/

theorem exists_mem_take_iff {α : Type} {l : List α} {p : α → Bool} {k : Nat} (hk : k ≤ l.length) :
    (∃ x ∈ l.take k, p x) ↔ l.findIdx p < k := by
  induction l generalizing k with
  | nil => simp_all
  | cons a l ih =>
    cases k with
    | zero => simp
    | succ k =>
      rw [List.take_succ_cons, List.findIdx_cons]
      by_cases ha : p a
      · simp [ha]
      · simp only [List.mem_cons, exists_eq_or_imp, ha, Bool.false_eq_true, false_or, cond_false,
          Nat.add_lt_add_iff_right]
        exact ih (by simpa using hk)

theorem posOne_lt_iff {k : Nat} (hk : k ≤ entries.length) :
    posOne entries < k ↔ ∃ e ∈ entries.take k, e.number = 1 := by
  rw [posOne, ← exists_mem_take_iff hk]
  simp

theorem posNo_lt_iff {no : QString} {k : Nat} (hk : k ≤ entries.length) :
    posNo entries no < k ↔ no ∈ (entries.take k).map OrderIndex.dispatchNo := by
  rw [posNo, ← exists_mem_take_iff hk, List.mem_map]
  simp only [beq_iff_eq]

/-! ## When number 1 is missing -/

theorem nodup_range (n : Nat) : ((List.range' 1 n).map Int.ofNat).Nodup :=
  List.Nodup.map (fun _ _ h => Int.ofNat.inj h) (List.nodup_range' 1)

section

variable (h : Adjustment rows entries) (hkeys : (rows.map OrderRow.moDispatchNo).Nodup)

include h

theorem posOne_lt_length {x : OrderRow} (hx : x ∈ rows) (hx1 : x.mainOrderFlag = 1) :
    posOne entries < entries.length := by
  have hone : (1 : Int) ∈ entries.map OrderIndex.number := by
    rw [h.numbers.mem_iff, ← hx1, ← h.flags.mem_iff]
    exact List.mem_map_of_mem hx
  obtain ⟨e, he, heq⟩ := List.mem_map.mp hone
  have := (posOne_lt_iff (Nat.le_refl entries.length)).mpr ⟨e, by simpa using he, heq⟩
  exact this

theorem eq_of_flag_eq {r s : OrderRow} (hr : r ∈ rows) (hs : s ∈ rows)
    (heq : r.mainOrderFlag = s.mainOrderFlag) : r = s :=
  List.inj_on_of_nodup_map (h.flags.nodup_iff.mpr (nodup_range _)) hr hs heq

theorem exists_row {e : OrderIndex} (he : e ∈ entries) :
    ∃ r ∈ rows, r.moDispatchNo = e.dispatchNo :=
  List.mem_map.mp (h.nos.mem_iff.mp (List.mem_map_of_mem he))

theorem mem_nos {r : OrderRow} (hr : r ∈ rows) : r.moDispatchNo ∈ entries.map OrderIndex.dispatchNo :=
  h.nos.mem_iff.mpr (List.mem_map_of_mem hr)

include hkeys

theorem nodup_nos : (entries.map OrderIndex.dispatchNo).Nodup := h.nos.nodup_iff.mpr hkeys

/-- After the entries `pre`, an order of number 1 is left exactly when the old main order still has
it or a new one was given it. -/
theorem hasMain_setFlags_iff (hsplit : entries = pre ++ post) {x : OrderRow} (hx : x ∈ rows)
    (hx1 : x.mainOrderFlag = 1) :
    DB.HasMain (setFlags rows pre) ↔
      x.moDispatchNo ∉ pre.map OrderIndex.dispatchNo ∨ ∃ e ∈ pre, e.number = 1 := by
  have hsub : ∀ e ∈ pre, e ∈ entries := fun e he => hsplit ▸ List.mem_append_left post he
  have hnd : (pre.map OrderIndex.dispatchNo).Nodup := by
    have := h.nodup_nos hkeys
    rw [hsplit, List.map_append] at this
    exact (List.nodup_append.mp this).1
  rw [setFlags_eq_map]
  constructor
  · rintro ⟨_, hmem, hone⟩
    obtain ⟨r, hr, rfl⟩ := List.mem_map.mp hmem
    by_cases hin : r.moDispatchNo ∈ pre.map OrderIndex.dispatchNo
    · obtain ⟨e, he, heq⟩ := List.mem_map.mp hin
      right
      refine ⟨e, he, ?_⟩
      rw [← hone]
      show e.number = flagAfter pre r.moDispatchNo r.mainOrderFlag
      rw [← heq, flagAfter_of_mem hnd he]
    · -- number 1 was not given out so far: who has it had it before
      left
      have hone' : r.mainOrderFlag = 1 := (flagAfter_of_not_mem hin).symm.trans hone
      rwa [← h.eq_of_flag_eq hr hx (hone'.trans hx1.symm)]
  · rintro (hnot | ⟨e, he, hone⟩)
    · refine ⟨_, List.mem_map_of_mem hx, ?_⟩
      show flagAfter pre x.moDispatchNo x.mainOrderFlag = 1
      rw [flagAfter_of_not_mem hnot, hx1]
    · obtain ⟨r, hr, hre⟩ := h.exists_row (hsub e he)
      refine ⟨_, List.mem_map_of_mem hr, ?_⟩
      show flagAfter pre r.moDispatchNo r.mainOrderFlag = 1
      rw [hre, flagAfter_of_mem hnd he, hone]

/-- All entries together give every order the number asked for. -/
theorem setFlags_all : setFlags rows entries = requestedRows rows entries := by
  rw [setFlags_eq_map, requestedRows]
  apply List.map_congr_left
  intro r hr
  rw [numberedBy, flagAfter_eq_requested (h.nodup_nos hkeys) (h.mem_nos hr)]

/-- Number 1 is given out before the main order loses it: `OnUpdate` never finds it missing. -/
theorem adjustRows_of_posOne_le {x : OrderRow} (hx : x ∈ rows) (hx1 : x.mainOrderFlag = 1)
    (hle : posOne entries ≤ posNo entries x.moDispatchNo) :
    adjustRows rows entries = setFlags rows entries := by
  apply adjustRows_eq_setFlags
  intro pre post hsplit _
  rw [h.hasMain_setFlags_iff hkeys hsplit hx hx1]
  by_cases hin : x.moDispatchNo ∈ pre.map OrderIndex.dispatchNo
  · right
    have hpre : entries.take pre.length = pre := by rw [hsplit, List.take_left]
    have hk : pre.length ≤ entries.length := by rw [hsplit, List.length_append]; omega
    have hpos : posNo entries x.moDispatchNo < pre.length := by
      rwa [posNo_lt_iff hk, hpre]
    have hone := (posOne_lt_iff hk).mp (Nat.lt_of_le_of_lt hle hpos)
    rwa [hpre] at hone
  · exact .inl hin

/-- Otherwise the empty order is stored when the entry of the main order was carried out. -/
theorem adjustRows_take_of_lt {x : OrderRow} (hx : x ∈ rows) (hx1 : x.mainOrderFlag = 1)
    (hlt : posNo entries x.moDispatchNo < posOne entries) :
    adjustRows rows (entries.take (posNo entries x.moDispatchNo + 1)) =
        (setFlags rows (entries.take (posNo entries x.moDispatchNo + 1))).filter
          (fun r => r.moDispatchNo ≠ []) ++ [emptyOrder] ∧
      ¬ DB.HasMain (setFlags rows (entries.take (posNo entries x.moDispatchNo + 1))) := by
  have hk : posNo entries x.moDispatchNo < entries.length := by
    rw [posNo, List.findIdx_lt_length]
    obtain ⟨e, he, heq⟩ := List.mem_map.mp (h.mem_nos hx)
    exact ⟨e, he, by simpa using heq⟩
  have hmain : ¬ DB.HasMain (setFlags rows (entries.take (posNo entries x.moDispatchNo + 1))) := by
    rw [h.hasMain_setFlags_iff hkeys (List.take_append_drop _ entries).symm hx hx1, not_or]
    refine ⟨?_, ?_⟩
    · rw [not_not]
      exact (posNo_lt_iff hk).mp (Nat.lt_succ_self _)
    · intro hone
      have := (posOne_lt_iff hk).mpr hone
      omega
  refine ⟨?_, hmain⟩
  -- before its entry, the main order keeps number 1
  have hbefore : adjustRows rows (entries.take (posNo entries x.moDispatchNo)) =
      setFlags rows (entries.take (posNo entries x.moDispatchNo)) := by
    apply adjustRows_eq_setFlags
    intro pre post hsplit _
    have hsplit' : entries = pre ++ (post ++ entries.drop (posNo entries x.moDispatchNo)) := by
      rw [← List.append_assoc, ← hsplit, List.take_append_drop]
    rw [h.hasMain_setFlags_iff hkeys hsplit' hx hx1]
    left
    intro hin
    apply Nat.lt_irrefl (posNo entries x.moDispatchNo)
    rw [posNo_lt_iff (Nat.le_of_lt hk), hsplit, List.map_append]
    exact List.mem_append_left _ hin
  have hlast : adjustRows rows (entries.take (posNo entries x.moDispatchNo + 1)) =
      DB.fillMain (setFlags rows (entries.take (posNo entries x.moDispatchNo + 1))) := by
    rw [List.take_succ_eq_append_getElem hk, adjustRows_append, hbefore, setFlags, setFlags,
      List.foldl_append]
    rfl
  rw [hlast, DB.fillMain, if_neg hmain]

end

/-! ## What is left of the empty order -/

/-- The empty order has number 1. -/
def EmptyIsMain (rows : List OrderRow) : Prop :=
  ∃ r ∈ rows, r.moDispatchNo = [] ∧ r.mainOrderFlag = 1

theorem mem_setFlag {e : OrderIndex} {r : OrderRow} : r ∈ setFlag rows e ↔
    ∃ s ∈ rows, (if s.moDispatchNo == e.dispatchNo then { s with mainOrderFlag := e.number } else s) = r := by
  simp [setFlag]

theorem blank_adjustRows (hb : ∃ r ∈ rows, Blank r) : ∃ r ∈ adjustRows rows entries, Blank r := by
  induction entries generalizing rows with
  | nil => exact hb
  | cons e es ih =>
    apply @ih (DB.fillMain (setFlag rows e))
    unfold DB.fillMain
    split
    · obtain ⟨r, hr, hblank⟩ := hb
      refine ⟨_, mem_setFlag.mpr ⟨r, hr, rfl⟩, ?_⟩
      split
      · exact hblank
      · exact hblank
    · exact ⟨emptyOrder, by simp, rfl⟩

/-- Entries for other orders leave the empty order as the main order. -/
theorem emptyIsMain_adjustRows (hb : EmptyIsMain rows) (hno : [] ∉ entries.map OrderIndex.dispatchNo) :
    EmptyIsMain (adjustRows rows entries) := by
  induction entries generalizing rows with
  | nil => exact hb
  | cons e es ih =>
    rw [List.map_cons, List.mem_cons, not_or] at hno
    refine @ih (DB.fillMain (setFlag rows e)) ?_ hno.2
    obtain ⟨r, hr, hnil, hone⟩ := hb
    have hr' : r ∈ setFlag rows e :=
      mem_setFlag.mpr ⟨r, hr, if_neg (by simpa [hnil] using hno.1)⟩
    have hmain : DB.HasMain (setFlag rows e) := ⟨r, hr', hone⟩
    rw [DB.fillMain, if_pos hmain]
    exact ⟨r, hr', hnil, hone⟩

/-- As long as no other order was given number 1, the empty order has it after every step. -/
theorem onlyEmpty_adjustRows (hb : EmptyIsMain rows)
    (honly : ∀ r ∈ rows, r.mainOrderFlag = 1 → r.moDispatchNo = [])
    (hnum : ∀ e ∈ entries, e.number ≠ 1) : EmptyIsMain (adjustRows rows entries) := by
  induction entries generalizing rows with
  | nil => exact hb
  | cons e es ih =>
    have honly' : ∀ r ∈ setFlag rows e, r.mainOrderFlag = 1 → r.moDispatchNo = [] := by
      intro r hr hone
      obtain ⟨s, hs, rfl⟩ := mem_setFlag.mp hr
      split at hone
      · exact absurd hone (hnum e (by simp))
      · next hne =>
        rw [if_neg hne]
        exact honly s hs hone
    show EmptyIsMain (adjustRows (DB.fillMain (setFlag rows e)) es)
    unfold DB.fillMain
    split
    · next hmain =>
      obtain ⟨r, hr, hone⟩ := hmain
      exact ih ⟨r, hr, honly' r hr hone, hone⟩ honly' (fun d hd => hnum d (by simp [hd]))
    · next hmain =>
      refine ih ⟨emptyOrder, by simp, rfl, rfl⟩ ?_ (fun d hd => hnum d (by simp [hd]))
      intro r hr hone
      rcases List.mem_append.mp hr with hr | hr
      · exact absurd ⟨r, (List.mem_filter.mp hr).1, hone⟩ hmain
      · rw [List.mem_singleton.mp hr]
        rfl

/-- Storing the empty order. -/
def storeEmpty (rows : List OrderRow) : List OrderRow :=
  rows.filter (fun r => r.moDispatchNo ≠ []) ++ [emptyOrder]

theorem mem_storeEmpty {r : OrderRow} :
    r ∈ storeEmpty rows ↔ (r ∈ rows ∧ r.moDispatchNo ≠ []) ∨ r = emptyOrder := by
  simp [storeEmpty]

theorem exists_mem_storeEmpty {no : QString} (h : ∃ r ∈ rows, r.moDispatchNo = no) :
    ∃ r ∈ storeEmpty rows, r.moDispatchNo = no := by
  obtain ⟨r, hr, rfl⟩ := h
  by_cases hnil : r.moDispatchNo = []
  · exact ⟨emptyOrder, mem_storeEmpty.mpr (.inr rfl), hnil.symm⟩
  · exact ⟨r, mem_storeEmpty.mpr (.inl ⟨hr, hnil⟩), rfl⟩

theorem nodup_map_storeEmpty (hkeys : (rows.map OrderRow.moDispatchNo).Nodup) :
    ((storeEmpty rows).map OrderRow.moDispatchNo).Nodup := by
  rw [storeEmpty, List.map_append, List.nodup_append]
  refine ⟨hkeys.sublist (List.filter_sublist.map _), by simp, ?_⟩
  intro a ha c hc
  obtain ⟨r, hr, rfl⟩ := List.mem_map.mp ha
  rw [List.map_singleton, List.mem_singleton] at hc
  rw [hc]
  exact of_decide_eq_true (List.mem_filter.mp hr).2

/-- Storing the empty order over a row without data is undone by the entry that numbers it. -/
theorem setFlags_storeEmpty_perm (hblank : ∃ r ∈ rows, Blank r)
    (hnd : (entries.map OrderIndex.dispatchNo).Nodup) (hin : [] ∈ entries.map OrderIndex.dispatchNo)
    (hkeys : (rows.map OrderRow.moDispatchNo).Nodup) :
    (setFlags (storeEmpty rows) entries).Perm (setFlags rows entries) := by
  obtain ⟨b, hb, hblank⟩ := hblank
  have hbnil : b.moDispatchNo = [] := congrArg OrderRow.moDispatchNo hblank
  rw [setFlags_eq_map, setFlags_eq_map]
  -- the new empty order and the old one get the same number in the end
  have hsame : numberedBy entries emptyOrder = numberedBy entries b := by
    have hnum : ∀ f, flagAfter entries [] f = requested entries [] := fun _ =>
      flagAfter_eq_requested hnd hin
    unfold numberedBy
    rw [hbnil, hnum, ← hblank, hbnil, hnum]
  have hnodup : ∀ l : List OrderRow, (l.map OrderRow.moDispatchNo).Nodup →
      (l.map (numberedBy entries)).Nodup := by
    intro l hl
    apply List.Nodup.of_map OrderRow.moDispatchNo
    rw [List.map_map]
    exact hl
  rw [List.perm_ext_iff_of_nodup (hnodup _ (nodup_map_storeEmpty hkeys)) (hnodup _ hkeys)]
  intro r
  rw [List.mem_map, List.mem_map]
  constructor
  · rintro ⟨s, hs, rfl⟩
    rcases mem_storeEmpty.mp hs with ⟨hs, -⟩ | rfl
    · exact ⟨s, hs, rfl⟩
    · exact ⟨b, hb, hsame.symm⟩
  · rintro ⟨s, hs, rfl⟩
    by_cases hnil : s.moDispatchNo = []
    · have hsb : s = b := List.inj_on_of_nodup_map hkeys hs hb (hnil.trans hbnil.symm)
      exact ⟨emptyOrder, mem_storeEmpty.mpr (.inr rfl), hsb ▸ hsame⟩
    · exact ⟨s, mem_storeEmpty.mpr (.inl ⟨hs, hnil⟩), rfl⟩

/-! ## The two outcomes when number 1 goes missing -/

section

variable (h : Adjustment rows entries) (hkeys : (rows.map OrderRow.moDispatchNo).Nodup)
  {x : OrderRow} (hx : x ∈ rows) (hx1 : x.mainOrderFlag = 1)
  (hlt : posNo entries x.moDispatchNo < posOne entries)

include h hkeys hx hx1 hlt

/-- If the result is the one asked for, the empty order was there before, without data, and its
entry does not come before number 1 is given out. -/
theorem blank_of_perm
    (hperm : (adjustRows rows entries).Perm (requestedRows rows entries)) :
    (∃ r ∈ rows, Blank r) ∧ posOne entries ≤ posNo entries [] := by
  obtain ⟨hfront, hmain⟩ := h.adjustRows_take_of_lt hkeys hx hx1 hlt
  have hend := h.posOne_lt_length hx hx1
  have hsplit : adjustRows rows entries = adjustRows (adjustRows rows
      (entries.take (posNo entries x.moDispatchNo + 1)))
      (entries.drop (posNo entries x.moDispatchNo + 1)) := by
    rw [← adjustRows_append, List.take_append_drop]
  constructor
  · have hb : ∃ r ∈ adjustRows rows entries, Blank r := by
      rw [hsplit]
      apply blank_adjustRows
      rw [hfront]
      exact ⟨emptyOrder, by simp, rfl⟩
    obtain ⟨r, hr, hblank⟩ := hb
    obtain ⟨s, hs, rfl⟩ := List.mem_map.mp (hperm.mem_iff.mp hr)
    exact ⟨s, hs, hblank⟩
  · by_contra hle
    have hle : posNo entries [] < posOne entries := Nat.lt_of_not_le hle
    -- until number 1 is given out, the empty order is the only one that has it
    have hmid : EmptyIsMain (adjustRows rows (entries.take (posOne entries))) := by
      have htake : entries.take (posOne entries) =
          entries.take (posNo entries x.moDispatchNo + 1) ++
            (entries.take (posOne entries)).drop (posNo entries x.moDispatchNo + 1) := by
        conv_lhs => rw [← List.take_append_drop (posNo entries x.moDispatchNo + 1)
          (entries.take (posOne entries)), List.take_take, Nat.min_eq_left hlt]
      rw [htake, adjustRows_append, hfront]
      apply onlyEmpty_adjustRows ⟨emptyOrder, by simp, rfl, rfl⟩
      · intro r hr hone
        rcases List.mem_append.mp hr with hr | hr
        · exact absurd ⟨r, (List.mem_filter.mp hr).1, hone⟩ hmain
        · rw [List.mem_singleton.mp hr]
          rfl
      · intro e he hone
        apply Nat.lt_irrefl (posOne entries)
        rw [posOne_lt_iff (Nat.le_of_lt hend)]
        exact ⟨e, List.mem_of_mem_drop he, hone⟩
    -- and its own entry is behind it, so that is how it ends
    have hin := (posNo_lt_iff (Nat.le_of_lt hend)).mp hle
    have hnd := h.nodup_nos hkeys
    rw [← List.take_append_drop (posOne entries) entries, List.map_append, List.nodup_append] at hnd
    have hlast : EmptyIsMain (adjustRows rows entries) := by
      rw [← List.take_append_drop (posOne entries) entries, adjustRows_append]
      exact emptyIsMain_adjustRows hmid (fun hin' => hnd.2.2 _ hin _ hin' rfl)
    obtain ⟨r, hr, hnil, hone⟩ := hlast
    obtain ⟨s, hs, rfl⟩ := List.mem_map.mp (hperm.mem_iff.mp hr)
    obtain ⟨e, he, heq⟩ := List.mem_map.mp hin
    have hreq : requested entries s.moDispatchNo = 1 := hone
    have hsame : s.moDispatchNo = e.dispatchNo := hnil.trans heq.symm
    have heone : e.number = 1 := by
      rw [← hreq, hsame, requested_of_mem (h.nodup_nos hkeys) (List.mem_of_mem_take he)]
    exact Nat.lt_irrefl _ ((posOne_lt_iff (Nat.le_of_lt hend)).mpr ⟨e, he, heone⟩)

/-- Until another order gets number 1, the empty order keeps it. -/
theorem adjustRows_storeEmpty {rows1 : List OrderRow}
    (hrows1 : rows1 = setFlags rows (entries.take (posNo entries x.moDispatchNo + 1)))
    (hle : posOne entries ≤ posNo entries []) :
    adjustRows (storeEmpty rows1) (entries.drop (posNo entries x.moDispatchNo + 1)) =
      setFlags (storeEmpty rows1) (entries.drop (posNo entries x.moDispatchNo + 1)) := by
  apply adjustRows_eq_setFlags
  intro pre post hp _
  have htake : entries.take (posNo entries x.moDispatchNo + 1 + pre.length) =
      entries.take (posNo entries x.moDispatchNo + 1) ++ pre := by
    rw [List.take_add, hp, List.take_left]
  have hlen : posNo entries x.moDispatchNo + 1 + pre.length ≤ entries.length := by
    have := congrArg List.length hp
    have hend := h.posOne_lt_length hx hx1
    rw [List.length_drop, List.length_append] at this
    omega
  have hsub : ∀ e ∈ pre, e ∈ entries := fun e he =>
    List.mem_of_mem_drop (hp ▸ List.mem_append_left post he)
  rw [setFlags_eq_map]
  -- after each entry some order has number 1: the one that was given it, or the empty one
  by_cases hone : ∃ e ∈ pre, e.number = 1
  · obtain ⟨e, he, hone⟩ := hone
    obtain ⟨r, hr, hre⟩ := h.exists_row (hsub e he)
    obtain ⟨s, hs, hse⟩ : ∃ s ∈ storeEmpty rows1, s.moDispatchNo = r.moDispatchNo := by
      apply exists_mem_storeEmpty
      rw [hrows1, setFlags_eq_map]
      exact ⟨_, List.mem_map_of_mem hr, rfl⟩
    have hnd : (pre.map OrderIndex.dispatchNo).Nodup := by
      have hsubl : pre.Sublist entries := by
        refine List.Sublist.trans ?_ (List.drop_sublist (posNo entries x.moDispatchNo + 1) entries)
        rw [hp]
        exact List.sublist_append_left pre post
      exact (h.nodup_nos hkeys).sublist (hsubl.map _)
    refine ⟨_, List.mem_map_of_mem hs, ?_⟩
    show flagAfter pre s.moDispatchNo s.mainOrderFlag = 1
    rw [hse, hre, flagAfter_of_mem hnd he, hone]
  · refine ⟨_, List.mem_map_of_mem (List.mem_append_right _ (List.mem_singleton_self emptyOrder)), ?_⟩
    show flagAfter pre [] 1 = 1
    apply flagAfter_of_not_mem
    intro hin
    have hpos : posNo entries [] < posNo entries x.moDispatchNo + 1 + pre.length := by
      rw [posNo_lt_iff hlen, htake, List.map_append]
      exact List.mem_append_right _ hin
    obtain ⟨e, he, hnum⟩ := (posOne_lt_iff hlen).mp (Nat.lt_of_le_of_lt hle hpos)
    rw [htake, List.mem_append] at he
    rcases he with he | he
    · have := (posOne_lt_iff (Nat.le_trans (Nat.le_add_right _ _) hlen)).mpr ⟨e, he, hnum⟩
      omega
    · exact hone ⟨e, he, hnum⟩

/-- If the empty order was there before, without data, and its entry does not come before number 1
is given out, it passes number 1 on, and the result is the one asked for. -/
theorem perm_of_blank (hblank : ∃ r ∈ rows, Blank r) (hle : posOne entries ≤ posNo entries []) :
    (adjustRows rows entries).Perm (requestedRows rows entries) := by
  obtain ⟨hfront, -⟩ := h.adjustRows_take_of_lt hkeys hx hx1 hlt
  have hrest := h.adjustRows_storeEmpty hkeys hx hx1 hlt rfl hle
  have hsplit := List.take_append_drop (posNo entries x.moDispatchNo + 1) entries
  have hend := h.posOne_lt_length hx hx1
  obtain ⟨b, hb, hblank⟩ := hblank
  have hbnil : b.moDispatchNo = [] := congrArg OrderRow.moDispatchNo hblank
  -- the entry of the empty order is among those still to come
  have hin : [] ∈ (entries.drop (posNo entries x.moDispatchNo + 1)).map OrderIndex.dispatchNo := by
    have hall := h.mem_nos hb
    rw [hbnil, ← hsplit, List.map_append, List.mem_append] at hall
    rcases hall with hin | hin
    · have := (posNo_lt_iff (by omega)).mpr hin
      omega
    · exact hin
  have hnd : ((entries.drop (posNo entries x.moDispatchNo + 1)).map OrderIndex.dispatchNo).Nodup :=
    (h.nodup_nos hkeys).sublist ((List.drop_sublist _ _).map _)
  have hall : requestedRows rows entries =
      setFlags (setFlags rows (entries.take (posNo entries x.moDispatchNo + 1)))
        (entries.drop (posNo entries x.moDispatchNo + 1)) := by
    rw [← h.setFlags_all hkeys, setFlags, setFlags, setFlags, ← List.foldl_append, hsplit]
  have hadj : adjustRows rows entries =
      setFlags (storeEmpty (setFlags rows (entries.take (posNo entries x.moDispatchNo + 1))))
        (entries.drop (posNo entries x.moDispatchNo + 1)) := by
    rw [← hrest, storeEmpty, ← hfront, ← adjustRows_append, hsplit]
  rw [hadj, hall]
  refine setFlags_storeEmpty_perm ?_ hnd hin ?_
  · rw [setFlags_eq_map]
    exact ⟨_, List.mem_map_of_mem hb, hblank⟩
  · rw [setFlags_eq_map, List.map_map]
    exact hkeys

end

end Adjustment

open Adjustment in
/-- **Remote adjustment of the orders.** For every table numbered `1..n` and every request that
lists its `n` orders with a permutation of `1..n`, in any order: afterwards the table holds the same
orders, each with the number asked for, and the same products, if and only if the entry with number
1 is listed no later than the entry of the main order, or the table holds an empty order without
data whose entry is listed no earlier than the one with number 1. -/
theorem adjustOrders_iff (shop : Shop) (entries : List OrderIndex)
    (h : Adjustment shop.db.order.rows entries) :
    ((shop.adjustOrders entries).db.order.rows.Perm (requestedRows shop.db.order.rows entries) ∧
        (shop.adjustOrders entries).db.orderBoy = shop.db.orderBoy) ↔
      posOne entries ≤ posNo entries (mainNo shop.db.order.rows) ∨
        ((∃ r ∈ shop.db.order.rows, Blank r) ∧ posOne entries ≤ posNo entries []) := by
  obtain ⟨hrows, hboys⟩ := adjustOrders_eq shop entries
  have hkeys := shop.db.order.nodup
  rw [hrows, and_iff_left hboys]
  generalize shop.db.order.rows = rows at h hkeys
  by_cases hnil : rows = []
  · subst hnil
    have hentries : entries = [] := by
      have := h.nos.length_eq
      rw [List.length_map, List.length_map, List.length_nil] at this
      exact List.eq_nil_of_length_eq_zero this
    subst hentries
    exact ⟨fun _ => .inl (Nat.le_refl _), fun _ => List.Perm.refl _⟩
  -- the main order
  obtain ⟨x, hx, hx1, hmain⟩ :
      ∃ x ∈ rows, x.mainOrderFlag = 1 ∧ mainNo rows = x.moDispatchNo := by
    have hone : (1 : Int) ∈ rows.map OrderRow.mainOrderFlag := by
      rw [h.flags.mem_iff, List.mem_map]
      have := List.length_pos_iff.mpr hnil
      exact ⟨1, by rw [List.mem_range'_1]; omega, rfl⟩
    obtain ⟨r, hr, hr1⟩ := List.mem_map.mp hone
    have hsome : (rows.find? (·.mainOrderFlag == 1)).isSome := by
      rw [List.find?_isSome]
      exact ⟨r, hr, by simpa using hr1⟩
    obtain ⟨x, hfind⟩ := Option.isSome_iff_exists.mp hsome
    exact ⟨x, List.mem_of_find?_eq_some hfind, by simpa using List.find?_some hfind, by
      rw [mainNo, hfind]; rfl⟩
  rw [hmain]
  by_cases hle : posOne entries ≤ posNo entries x.moDispatchNo
  · rw [h.adjustRows_of_posOne_le hkeys hx hx1 hle, h.setFlags_all hkeys]
    exact ⟨fun _ => .inl hle, fun _ => List.Perm.refl _⟩
  · have hlt := Nat.lt_of_not_le hle
    constructor
    · intro hperm
      exact .inr (h.blank_of_perm hkeys hx hx1 hlt hperm)
    · rintro (hle' | ⟨hblank, hle'⟩)
      · exact absurd hle' hle
      · exact h.perm_of_blank hkeys hx hx1 hlt hblank hle'

/-- Two orders change places, and the new main order is listed first. -/
theorem adjustOrders_iff_two_orders :
    let shop : Shop := { db := { order := ⟨[{ moDispatchNo := [65], mainOrderFlag := 1 },
      { moDispatchNo := [66], mainOrderFlag := 2 }], by decide⟩ } }
    let entries : List OrderIndex := [⟨1, [66], []⟩, ⟨2, [65], []⟩]
    (shop.adjustOrders entries).db.order.rows.Perm
        [{ moDispatchNo := [65], mainOrderFlag := 2 }, { moDispatchNo := [66], mainOrderFlag := 1 }] ∧
      (shop.adjustOrders entries).db.orderBoy = shop.db.orderBoy := by
  intro shop entries
  exact (adjustOrders_iff shop entries ⟨by decide, by decide, by decide⟩).mpr (by decide)

/-- Two orders change places, and the old main order is listed first: after the first entry no order
has number 1, and an empty order is created that stays. -/
theorem adjustOrders_creates_empty :
    ¬ ∀ (shop : Shop) (entries : List OrderIndex), Adjustment shop.db.order.rows entries →
      (shop.adjustOrders entries).db.order.rows.Perm (requestedRows shop.db.order.rows entries) ∧
        (shop.adjustOrders entries).db.orderBoy = shop.db.orderBoy := by
  intro h
  have := h { db := { order := ⟨[{ moDispatchNo := [65], mainOrderFlag := 1 },
      { moDispatchNo := [66], mainOrderFlag := 2 }], by decide⟩ } }
    [⟨2, [65], []⟩, ⟨1, [66], []⟩] ⟨by decide, by decide, by decide⟩
  revert this
  decide

end ProgrammingPath.Mes
