import ProgrammingPath.Qt.Number

/-!
# What the fault dialog remembers (`Action/fun_dialog/fun24fsgz.cpp`)

The fault dialog keeps three values in the bound text of its button, as `card|time|number`. Each of
its six functions takes the text apart on its own, and each takes the number from the second part,
which is the time. A function that saves writes three parts, so that a number is there to be read,
and the number that is read is the time.
-/

namespace ProgrammingPath.Mes.Fun24fsgz

open ProgrammingPath.Qt ProgrammingPath.Qt.QString

/-! ## The six functions -/

/-- The parts of the bound text. -/
structure BindText where
  ic : QString
  time : QString
  no : QString

/-- How each function begins, with what it has for a card and a number that are missing. The number
is `list[1]` in all of them. -/
def unpack (ic no : QString) (bindText : QString) : BindText :=
  let list := bindText.splitOn 0x7C
  { ic := if list.length > 0 then list.getD 0 [] else ic
    time := if list.length > 1 then list.getD 1 [] else []
    no := if list.length > 2 then list.getD 1 [] else no }

/-- `ic+"|"+time+"|"+no`. -/
def BindText.pack (b : BindText) : QString := b.ic ++ [0x7C] ++ b.time ++ [0x7C] ++ b.no

def saveTmpTime (bindText : QString) (v : Int32) : QString :=
  ({ unpack [] [] bindText with time := number v } : BindText).pack

def saveTmpFaultNo (bindText : QString) (number' : Int32) : QString :=
  ({ unpack [] [] bindText with no := number number' } : BindText).pack

def saveIC (bindText newIC : QString) : QString :=
  ({ unpack [] [] bindText with ic := newIC } : BindText).pack

/-- The number is "0" where there is none. -/
def getTmpFaultNo (bindText : QString) : Int32 := toInt (unpack [] [0x30] bindText).no

def getTmpTime (bindText : QString) : Int32 := toInt (unpack [] [0x30] bindText).time

/-- The card is "00000001" where there is none. -/
def getIC (bindText : QString) : QString :=
  (unpack [0x30, 0x30, 0x30, 0x30, 0x30, 0x30, 0x30, 0x31] [] bindText).ic

/-! ## Sequences of saves -/

inductive Save where
  | ic (newIC : QString)
  | time (v : Int32)
  | faultNo (number : Int32)

def save (bindText : QString) : Save → QString
  | .ic newIC => saveIC bindText newIC
  | .time v => saveTmpTime bindText v
  | .faultNo number => saveTmpFaultNo bindText number

def Save.ic? : Save → Option QString
  | .ic newIC => some newIC
  | _ => none

def Save.time? : Save → Option Int32
  | .time v => some v
  | _ => none

def Save.faultNo? : Save → Option Int32
  | .faultNo number => some number
  | _ => none

/-- The value of a kind that was saved last. -/
def lastSaved {α : Type} (kind : Save → Option α) (saves : List Save) : Option α :=
  saves.reverse.findSome? kind

/-- The first part of a text. There always is one. -/
def firstPart (bindText : QString) : QString := (bindText.splitOn 0x7C).getD 0 []

/-- The second part of a text, empty if there is none. -/
def secondPart (bindText : QString) : QString := (bindText.splitOn 0x7C).getD 1 []

/-- Every function that reads gives the value that its own function saved last. -/
structure Remembers (bindText : QString) (saves : List Save) : Prop where
  ic : ∀ s, lastSaved Save.ic? saves = some s → getIC (saves.foldl save bindText) = s
  time : ∀ v, lastSaved Save.time? saves = some v → getTmpTime (saves.foldl save bindText) = v
  faultNo : ∀ k, lastSaved Save.faultNo? saves = some k →
    getTmpFaultNo (saves.foldl save bindText) = k

/-! ## Taking the text apart -/

variable {bindText : QString} {saves : List Save} {b : BindText}

/-- No part has a bar in it. -/
structure BindText.NoBar (b : BindText) : Prop where
  ic : 0x7C ∉ b.ic
  time : 0x7C ∉ b.time
  no : 0x7C ∉ b.no

theorem bar_notMem_number (v : Int32) : 0x7C ∉ number v := by
  intro hmem
  rcases mem_number hmem with hbar | hdigit
  · exact absurd hbar (by decide)
  · exact absurd hdigit (by decide)

theorem bar_notMem_getD (bindText : QString) (n : Nat) :
    0x7C ∉ (bindText.splitOn 0x7C).getD n [] := by
  rw [List.getD_eq_getElem?_getD]
  cases h : (bindText.splitOn 0x7C)[n]? with
  | none => exact List.not_mem_nil
  | some part => exact notMem_of_mem_splitOn (List.mem_of_getElem? h)

theorem unpack_noBar (bindText : QString) : (unpack [] [] bindText).NoBar := by
  unfold unpack
  refine ⟨?_, ?_, ?_⟩
  all_goals
    dsimp only
    split
    · exact bar_notMem_getD bindText _
    · exact List.not_mem_nil

/-- What is put together is taken apart again. -/
theorem splitOn_pack (h : b.NoBar) : b.pack.splitOn 0x7C = [b.ic, b.time, b.no] := by
  have hpack : b.pack = [0x7C].intercalate [b.ic, b.time, b.no] := by
    simp [BindText.pack, List.intercalate, List.intersperse]
  rw [hpack]
  refine List.splitOn_intercalate _ ?_ (List.cons_ne_nil _ _)
  simp [h.ic, h.time, h.no]

theorem unpack_ic (ic no bindText : QString) : (unpack ic no bindText).ic = firstPart bindText :=
  if_pos (List.length_pos_iff.mpr (List.splitOnP_ne_nil _ bindText))

theorem unpack_time (ic no bindText : QString) :
    (unpack ic no bindText).time = secondPart bindText := by
  simp only [unpack, secondPart]
  split
  · rfl
  · next hlen =>
    rw [List.getD_eq_getElem?_getD, List.getElem?_eq_none (by omega)]
    rfl

theorem firstPart_pack (h : b.NoBar) : firstPart b.pack = b.ic := by
  rw [firstPart, splitOn_pack h]
  rfl

theorem secondPart_pack (h : b.NoBar) : secondPart b.pack = b.time := by
  rw [secondPart, splitOn_pack h]
  rfl

/-- Of three parts, the second is taken for the number. -/
theorem getTmpFaultNo_pack (h : b.NoBar) : getTmpFaultNo b.pack = toInt (secondPart b.pack) := by
  rw [secondPart_pack h, getTmpFaultNo, unpack, splitOn_pack h]
  rfl

/-! ## What a save does -/

/-- The card of a save has no bar in it. -/
def Save.NoBar (s : Save) : Prop := ∀ newIC, s = .ic newIC → 0x7C ∉ newIC

/-- A save puts together three parts: its own value, and what was there. -/
theorem save_eq {s : Save} (hs : s.NoBar) (bindText : QString) :
    ∃ b : BindText, save bindText s = b.pack ∧ b.NoBar ∧
      b.ic = s.ic?.getD (firstPart bindText) ∧
      b.time = (s.time?.map number).getD (secondPart bindText) := by
  have hold := unpack_noBar bindText
  have hic := unpack_ic [] [] bindText
  have htime := unpack_time [] [] bindText
  cases s with
  | ic newIC => exact ⟨_, rfl, ⟨hs newIC rfl, hold.time, hold.no⟩, rfl, htime⟩
  | time v => exact ⟨_, rfl, ⟨hold.ic, bar_notMem_number v, hold.no⟩, hic, rfl⟩
  | faultNo k => exact ⟨_, rfl, ⟨hold.ic, hold.time, bar_notMem_number k⟩, hic, htime⟩

theorem lastSaved_cons {α : Type} (kind : Save → Option α) (s : Save) (saves : List Save) :
    lastSaved kind (s :: saves) = (lastSaved kind saves).or (kind s) := by
  rw [lastSaved, List.reverse_cons, List.findSome?_append]
  simp [lastSaved]

/-- The card and the time after some saves are those that were saved last. By induction on the
saves, for every text. -/
theorem parts_foldl_save (h : ∀ s ∈ saves, s.NoBar) (bindText : QString) :
    firstPart (saves.foldl save bindText) = (lastSaved Save.ic? saves).getD (firstPart bindText) ∧
      secondPart (saves.foldl save bindText) =
        ((lastSaved Save.time? saves).map number).getD (secondPart bindText) := by
  induction saves generalizing bindText with
  | nil => exact ⟨rfl, rfl⟩
  | cons s saves ih =>
    obtain ⟨b, hb, hbar, hic, htime⟩ := save_eq (h s List.mem_cons_self) bindText
    obtain ⟨ihic, ihtime⟩ := ih (fun s hs => h s (List.mem_cons_of_mem _ hs)) (save bindText s)
    rw [List.foldl_cons, ihic, ihtime, hb, firstPart_pack hbar, secondPart_pack hbar, hic, htime,
      lastSaved_cons, lastSaved_cons, Option.map_or]
    exact ⟨Option.getD_or.symm, Option.getD_or.symm⟩

/-- After a save there are three parts. -/
theorem exists_pack_foldl_save (h : ∀ s ∈ saves, s.NoBar) (hne : saves ≠ []) (bindText : QString) :
    ∃ b : BindText, b.NoBar ∧ saves.foldl save bindText = b.pack := by
  rw [← List.dropLast_concat_getLast hne, List.foldl_concat]
  obtain ⟨b, hb, hbar, -⟩ := save_eq (h _ (List.getLast_mem hne)) (saves.dropLast.foldl save bindText)
  exact ⟨b, hbar, hb⟩

/-! ## The result -/

theorem getTmpTime_foldl_save (h : ∀ s ∈ saves, s.NoBar) (bindText : QString) :
    getTmpTime (saves.foldl save bindText) =
      (lastSaved Save.time? saves).getD (toInt (secondPart bindText)) := by
  rw [getTmpTime, unpack_time, (parts_foldl_save h bindText).2]
  cases lastSaved Save.time? saves with
  | none => rfl
  | some v => exact toInt_number v

/-- After a save, the number that is read is the time. -/
theorem getTmpFaultNo_foldl_save (h : ∀ s ∈ saves, s.NoBar) (hne : saves ≠ [])
    (bindText : QString) :
    getTmpFaultNo (saves.foldl save bindText) = getTmpTime (saves.foldl save bindText) := by
  obtain ⟨b, hbar, hb⟩ := exists_pack_foldl_save h hne bindText
  rw [hb, getTmpFaultNo_pack hbar, getTmpTime, unpack_time]

theorem ne_nil_of_lastSaved {α : Type} {kind : Save → Option α} {a : α}
    (h : lastSaved kind saves = some a) : saves ≠ [] := by
  rintro rfl
  cases h

/-- **The fault dialog's memory.** The card and the time are always what was saved last. The number
is too exactly when it is the time: the one saved last, or that of the text at the beginning. -/
theorem remembers_iff (bindText : QString) (saves : List Save) (h : ∀ s ∈ saves, s.NoBar) :
    Remembers bindText saves ↔
      ∀ k, lastSaved Save.faultNo? saves = some k →
        k = (lastSaved Save.time? saves).getD (toInt (secondPart bindText)) := by
  have number_eq : ∀ k, lastSaved Save.faultNo? saves = some k →
      getTmpFaultNo (saves.foldl save bindText) =
        (lastSaved Save.time? saves).getD (toInt (secondPart bindText)) := by
    intro k hk
    rw [getTmpFaultNo_foldl_save h (ne_nil_of_lastSaved hk), getTmpTime_foldl_save h]
  constructor
  · intro hr k hk
    rw [← number_eq k hk]
    exact (hr.faultNo k hk).symm
  · intro hall
    refine ⟨?_, ?_, ?_⟩
    · intro s hs
      rw [getIC, unpack_ic, (parts_foldl_save h bindText).1, hs]
      rfl
    · intro v hv
      rw [getTmpTime_foldl_save h, hv]
      rfl
    · intro k hk
      rw [number_eq k hk, ← hall k hk]

theorem remembers_iff_same_number :
    (∀ s ∈ [Save.time 3, .ic [0x37], .faultNo 3], s.NoBar) ∧
      Remembers [] [.time 3, .ic [0x37], .faultNo 3] := by
  have hbar : ∀ s ∈ [Save.time 3, .ic [0x37], .faultNo 3], s.NoBar := by
    simp [Save.NoBar]
  refine ⟨hbar, (remembers_iff [] _ hbar).mpr ?_⟩
  intro k hk
  cases hk
  rfl

/-- The time 30 and then the fault number 2 are saved, and 30 is read for the number. -/
theorem not_remembers_time_and_number :
    ¬ ∀ (bindText : QString) (saves : List Save), (∀ s ∈ saves, s.NoBar) →
      Remembers bindText saves := by
  intro h
  have hnumber : getTmpFaultNo ([Save.time 30, .faultNo 2].foldl save []) = 30 := by decide +kernel
  have hr := (h [] [.time 30, .faultNo 2] (by simp [Save.NoBar])).faultNo 2 rfl
  rw [hnumber] at hr
  exact absurd hr (by decide)

end ProgrammingPath.Mes.Fun24fsgz
