import Mathlib.Algebra.Group.Nat.Defs
import Mathlib.Data.List.Perm.Subperm
import ProgrammingPath.Lib.Links
import ProgrammingPath.Lib.Run

/-!
# The list of allocated blocks (`ccmalloc/mem.c`)

`_mem_malloc` puts a record of the block behind the others in a ring, `mem_free` takes out all records
with the address of the block, and `mem_debug` prints what is in the ring. `mem_realloc` puts a record
of the new block in without taking the old one out, asks for the old pointer where it should ask for
the new one, and so leaves a block without a record, or a record without its block, nearly always.

The program can be linked with `-wrap=malloc -wrap=free`. Then `malloc` and `free` of this file are
`__wrap_malloc` and `__wrap_free`, which keep the same list. What the allocator answers belongs to the
calls: any address that is not in use, or none.
-/

namespace ProgrammingPath.MemDebug

open ProgrammingPath.Lib

/-! ## The code -/

/-- A `struct list_head`: the one of the ring, or that of the record at an address. -/
inductive Cell
  | head
  | mem (addr : Nat)
  deriving DecidableEq

/-- `mem_t`, without its place in the ring. -/
structure MemT where
  ptr : Nat
  file : String
  func : String
  line : Int32
  size : Int32

/-- The ring with its records, the addresses that the allocator has given away, and the blocks that
were obtained through the functions and not given back, with their sizes. -/
structure State where
  links : Links Cell
  mems : Nat → MemT
  used : List Nat
  blocks : List (Nat × Nat)

/-- Where a call stands in the program. -/
structure Place where
  file : String
  func : String
  line : Int32

/-- `_list_mem` at the start: a ring of the header alone. -/
def init : State where
  links := ⟨fun c => if c = .head then some .head else none, fun c => if c = .head then some .head else none⟩
  mems := fun _ => ⟨0, "", "", 0, 0⟩
  used := []
  blocks := []

/-- `_mem_append`, with `list_add_tail`. -/
def memAppend (s : State) (mem ptr : Nat) (at' : Place) (size : Int32) : Option State :=
  (s.links.prev .head).map fun last =>
    { s with
      mems := Function.update s.mems mem ⟨ptr, at'.file, at'.func, at'.line, size⟩
      links := s.links.insert (.mem mem) last .head }

/-- What the allocator answers to a `malloc`, and where this is wrapped to that for the record. -/
structure Answer where
  ptr : Option Nat
  mem : Option Nat

/-- `malloc`, or `__wrap_malloc`: a `size_t` becomes an `int` there. -/
def malloc (wrap : Bool) (s : State) (size : Nat) (answer : Answer) : Option State :=
  match answer.ptr with
  | none => some s
  | some ptr =>
    let s := { s with used := ptr :: s.used }
    if wrap then
      match answer.mem with
      | none => some s
      | some mem =>
        memAppend { s with used := mem :: s.used } mem ptr ⟨"mem.c", "malloc", 0⟩ (Int32.ofNat size)
    else some s

def sizeofMemT : Nat := 48

/-- `__mem_append`: here too a `size_t` becomes an `int`. -/
def memAppendNew (wrap : Bool) (s : State) (ptr : Nat) (at' : Place) (size : Nat) (answer : Answer) :
    Option State := do
  let s ← malloc wrap s sizeofMemT answer
  match answer.ptr with
  | none => some s
  | some mem => memAppend s mem ptr at' (Int32.ofNat size)

/-- `list_del`; the pointers of the cell then lead nowhere. -/
def listDel (l : Links Cell) (c : Cell) : Option (Links Cell) :=
  match l.prev c, l.next c with
  | some prev, some next => some ((l.join prev next).reset c none none)
  | _, _ => none

/-- The loop of `_mem_remove`, `list_for_each_safe` with `n` one ahead of `p`. `none` when it does not
end, or follows a pointer that leads nowhere. -/
def removeLoop (free : State → Nat → Option State) (ptr : Nat) :
    Nat → State → Cell → Option Cell → Option State
  | 0, _, _, _ => none
  | _ + 1, s, .head, _ => some s
  | fuel + 1, s, .mem a, n => do
    let s ← (if (s.mems a).ptr = ptr then
      (listDel s.links (.mem a)).bind fun links => free { s with links := links } a
      else some s)
    let p ← n
    removeLoop free ptr fuel s p (s.links.next p)

/-- `_mem_remove`. There are no more records than addresses given away. -/
def memRemove (free : State → Nat → Option State) (s : State) (ptr : Nat) : Option State := do
  let p ← s.links.next .head
  removeLoop free ptr (s.used.length + 1) s p (s.links.next p)

/-- `__real_free`. -/
def realFree (s : State) (ptr : Nat) : Option State := some { s with used := s.used.erase ptr }

/-- `free`, or `__wrap_free`. -/
def free (wrap : Bool) (s : State) (ptr : Nat) : Option State := do
  let s ← realFree s ptr
  if wrap then memRemove realFree s ptr else some s

/-- `_mem_malloc`, with the answers of the allocator for the block and for its record. -/
def memMalloc (wrap : Bool) (s : State) (size : Nat) (at' : Place) (block own : Answer) : Option State := do
  let s ← malloc wrap s size block
  match block.ptr with
  | none => some s
  | some ptr => memAppendNew wrap { s with blocks := s.blocks ++ [(ptr, size)] } ptr at' size own

/-- `realloc` of a block: refused, in place, or moved. -/
def reallocBlock (s : State) (old size : Nat) : Option Nat → State
  | none => s
  | some ptr =>
    { s with
      used := if ptr = old then s.used else ptr :: s.used.erase old
      blocks := s.blocks.map fun b => if b.1 = old then (ptr, size) else b }

/-- `mem_realloc`; the null pointer is `0`. -/
def memRealloc (wrap : Bool) (s : State) (old size : Nat) (at' : Place) (ptr : Option Nat) (own : Answer) :
    Option State :=
  if old = 0 then
    match ptr with
    | none => some s
    | some ptr => some { s with used := ptr :: s.used, blocks := s.blocks ++ [(ptr, size)] }
  else memAppendNew wrap (reallocBlock s old size ptr) (ptr.getD 0) at' size own

/-- `mem_free`. -/
def memFree (wrap : Bool) (s : State) (ptr : Nat) : Option State :=
  if ptr = 0 then some s
  else do
    let s ← free wrap { s with blocks := s.blocks.filter (·.1 ≠ ptr) } ptr
    memRemove (free wrap) s ptr

/-- A line that `mem_debug` prints: of the address only what `%X` shows of an `int`. -/
structure Line where
  ptr : UInt32
  file : String
  func : String
  line : Int32
  size : Int32

def MemT.print (m : MemT) : Line := ⟨UInt32.ofNat m.ptr, m.file, m.func, m.line, m.size⟩

/-- `mem_debug`. -/
def memDebug (s : State) : Option (List Line) :=
  (Links.follow s.links.next .head (s.used.length + 1) .head).map fun cells =>
    cells.filterMap fun c =>
      match c with
      | .head => none
      | .mem a => some (s.mems a).print

/-- A call, with what the allocator answers. -/
inductive Act
  | malloc (size : Nat) (at' : Place) (block own : Answer)
  | realloc (old size : Nat) (at' : Place) (ptr : Option Nat) (own : Answer)
  | free (ptr : Nat)

def step (wrap : Bool) (s : State) : Act → Option State
  | .malloc size at' block own => memMalloc wrap s size at' block own
  | .realloc old size at' ptr own => memRealloc wrap s old size at' ptr own
  | .free ptr => memFree wrap s ptr

/-! ## What is asked of the calls -/

/-- An address from the allocator: none, or one that is not in use. -/
def Fresh (used : List Nat) (ptr : Option Nat) : Prop := ∀ p ∈ ptr, p ≠ 0 ∧ p ∉ used

/-- The records that a call of `malloc` makes by itself. -/
def Answer.records (wrap : Bool) (answer : Answer) : List Nat :=
  if wrap && answer.ptr.isSome then answer.mem.toList else []

/-- The answer to a `malloc` when `used` are in use. -/
def Answer.Fresh (wrap : Bool) (used : List Nat) (answer : Answer) : Prop :=
  MemDebug.Fresh used answer.ptr ∧ (wrap = true → MemDebug.Fresh (answer.ptr.toList ++ used) answer.mem)

/-- What is in use after it. -/
def Answer.used (wrap : Bool) (used : List Nat) (answer : Answer) : List Nat :=
  answer.records wrap ++ (answer.ptr.toList ++ used)

/-- The callers give back, or resize, null pointers and blocks that they have; the allocator gives away
addresses that are not in use, or resizes a block in place. -/
def Allowed (wrap : Bool) (s : State) : Act → Prop
  | .malloc _ _ block own => block.Fresh wrap s.used ∧ own.Fresh wrap (block.used wrap s.used)
  | .realloc old size _ ptr own =>
    (old = 0 ∨ old ∈ s.blocks.map Prod.fst) ∧ (ptr = some old ∧ old ≠ 0 ∨ Fresh s.used ptr) ∧
      (old ≠ 0 → own.Fresh wrap (reallocBlock s old size ptr).used)
  | .free ptr => ptr = 0 ∨ ptr ∈ s.blocks.map Prod.fst

instance (used : List Nat) (ptr : Option Nat) : Decidable (Fresh used ptr) :=
  inferInstanceAs (Decidable (∀ p ∈ ptr, p ≠ 0 ∧ p ∉ used))

instance (wrap : Bool) (used : List Nat) (answer : Answer) : Decidable (answer.Fresh wrap used) :=
  inferInstanceAs (Decidable (_ ∧ (_ → _)))

instance (wrap : Bool) (s : State) : ∀ a, Decidable (Allowed wrap s a)
  | .malloc _ _ block own =>
    inferInstanceAs (Decidable (block.Fresh wrap s.used ∧ own.Fresh wrap (block.used wrap s.used)))
  | .realloc old size _ ptr own =>
    inferInstanceAs (Decidable ((old = 0 ∨ old ∈ s.blocks.map Prod.fst) ∧
      (ptr = some old ∧ old ≠ 0 ∨ Fresh s.used ptr) ∧
      (old ≠ 0 → own.Fresh wrap (reallocBlock s old size ptr).used)))
  | .free ptr => inferInstanceAs (Decidable (ptr = 0 ∨ ptr ∈ s.blocks.map Prod.fst))

/-- The lines of `mem_debug` are the live blocks, each one once, with their addresses and sizes. -/
def Right (s : State) : Prop :=
  ∃ lines, memDebug s = some lines ∧
    (lines.map fun l => ((l.ptr.toNat : Int), l.size.toInt)).Perm
      (s.blocks.map fun b => ((b.1 : Int), (b.2 : Int)))

/-! ## The ring -/

/-- The records at the addresses `xs` hang on the ring; they and the blocks are different, and all of them
are in use. -/
structure Tracks (s : State) (xs : List Nat) : Prop where
  ring : Links.Ring s.links .head (xs.map Cell.mem)
  used : ∀ a ∈ xs ++ s.blocks.map Prod.fst, a ∈ s.used
  nodup : (xs ++ s.blocks.map Prod.fst).Nodup
  zero : 0 ∉ s.used

/-- The records of the ring, in its order. -/
def records (s : State) (xs : List Nat) : List MemT := xs.map s.mems

variable {s : State} {xs : List Nat}

theorem tracks_init : Tracks init [] where
  ring := ⟨⟨rfl, rfl⟩, List.nodup_singleton _⟩
  used := fun _ h => absurd h List.not_mem_nil
  nodup := List.nodup_nil
  zero := List.not_mem_nil

theorem mem_inj : Function.Injective Cell.mem := fun _ _ h => Cell.mem.inj h

/-- The ring is not longer than the list of addresses in use. -/
theorem Tracks.length_le (h : Tracks s xs) : xs.length ≤ s.used.length := by
  have hsub : xs ⊆ s.used := fun a ha => h.used a (List.mem_append_left _ ha)
  exact (List.subperm_of_subset (List.nodup_append.mp h.nodup).1 hsub).length_le

/-- `mem_debug` prints the records. -/
theorem Tracks.memDebug_eq (h : Tracks s xs) :
    memDebug s = some ((records s xs).map MemT.print) := by
  have hlen : (xs.map Cell.mem).length < s.used.length + 1 := by
    rw [List.length_map]
    exact Nat.lt_succ_of_le h.length_le
  unfold memDebug records
  rw [(h.ring.follow hlen).1, Option.map_some, List.filterMap_map, List.map_map]
  exact congrArg some (List.filterMap_eq_map (f := fun a => (s.mems a).print) ▸ rfl)

/-- An address is taken from the allocator. -/
theorem Tracks.take (h : Tracks s xs) {ptr : Nat} (h0 : ptr ≠ 0) :
    Tracks { s with used := ptr :: s.used } xs where
  ring := h.ring
  used a ha := List.mem_cons_of_mem ptr (h.used a ha)
  nodup := h.nodup
  zero hmem := (List.mem_cons.mp hmem).elim (fun heq => h0 heq.symm) h.zero

/-- A block is added. -/
theorem Tracks.addBlock (h : Tracks s xs) {ptr : Nat} (hptr : ptr ∈ s.used)
    (hfree : ptr ∉ xs ++ s.blocks.map Prod.fst) (size : Nat) :
    Tracks { s with blocks := s.blocks ++ [(ptr, size)] } xs where
  ring := h.ring
  used a ha := by
    rw [List.map_append, ← List.append_assoc, List.mem_append] at ha
    rcases ha with ha | ha
    · exact h.used a ha
    · rw [List.map_singleton, List.mem_singleton] at ha
      exact ha ▸ hptr
  nodup := by
    rw [List.map_append, ← List.append_assoc]
    refine List.nodup_append.mpr ⟨h.nodup, List.nodup_singleton _, fun a ha b hb heq => ?_⟩
    have hb' : b = ptr := List.mem_singleton.mp hb
    exact hfree (hb' ▸ heq ▸ ha)
  zero := h.zero

/-- A block is given back. -/
theorem Tracks.dropBlock (h : Tracks s xs) {ptr : Nat} (hptr : ptr ∈ s.blocks.map Prod.fst) :
    Tracks { s with used := s.used.erase ptr, blocks := s.blocks.filter (·.1 ≠ ptr) } xs where
  ring := h.ring
  used a ha := by
    have hne : a ≠ ptr := by
      rintro rfl
      rcases List.mem_append.mp ha with ha | ha
      · exact (List.nodup_append.mp h.nodup).2.2 a ha a hptr rfl
      · obtain ⟨b, hb, rfl⟩ := List.mem_map.mp ha
        simpa using (List.mem_filter.mp hb).2
    have hsub : xs ++ (s.blocks.filter (·.1 ≠ ptr)).map Prod.fst ⊆ xs ++ s.blocks.map Prod.fst :=
      List.append_subset.mpr ⟨List.subset_append_left _ _, fun b hb =>
        List.mem_append_right _ (List.map_subset _ (List.filter_subset_self _) hb)⟩
    exact (List.mem_erase_of_ne hne).mpr (h.used a (hsub ha))
  nodup := h.nodup.sublist ((List.filter_sublist.map _).append_left xs)
  zero hmem := h.zero (List.mem_of_mem_erase hmem)

/-- A block is resized, or refused. -/
theorem Tracks.reallocBlock (h : Tracks s xs) {old : Nat} {ptr : Option Nat}
    (hold : old ∈ s.blocks.map Prod.fst) (hptr : ptr = some old ∨ Fresh s.used ptr) (size : Nat) :
    Tracks (reallocBlock s old size ptr) xs := by
  cases ptr with
  | none => exact h
  | some ptr =>
    -- every address in the list stays, but that of the block
    let g : Nat → Nat := fun a => if a = old then ptr else a
    have hxs (a : Nat) (ha : a ∈ xs) : a ≠ old := fun heq =>
      (List.nodup_append.mp h.nodup).2.2 a ha old hold heq
    have hblocks : (MemDebug.reallocBlock s old size (some ptr)).blocks.map Prod.fst =
        (s.blocks.map Prod.fst).map g := by
      unfold MemDebug.reallocBlock
      rw [List.map_map, List.map_map]
      refine List.map_congr_left fun b _ => ?_
      show (if b.1 = old then (ptr, size) else b).1 = if b.1 = old then ptr else b.1
      split
      · rfl
      · rfl
    have haddrs : xs ++ (s.blocks.map Prod.fst).map g = (xs ++ s.blocks.map Prod.fst).map g := by
      rw [List.map_append]
      refine congrArg (· ++ _) ?_
      have hid : xs.map g = xs.map id := List.map_congr_left fun a ha => if_neg (hxs a ha)
      rw [hid, List.map_id]
    have hnew : ptr = old ∨ ptr ≠ 0 ∧ ptr ∉ s.used :=
      hptr.imp (fun heq => Option.some.inj heq) fun hfresh => hfresh ptr rfl
    refine ⟨h.ring, ?_, ?_, ?_⟩
    · rw [hblocks, haddrs]
      intro a ha
      obtain ⟨b, hb, rfl⟩ := List.mem_map.mp ha
      show g b ∈ if ptr = old then s.used else ptr :: s.used.erase old
      have hused := h.used b hb
      by_cases hplace : ptr = old
      · have hgb : g b = b := by
          show (if b = old then ptr else b) = b
          split
          · next heq => rw [heq, hplace]
          · rfl
        rw [if_pos hplace, hgb]
        exact hused
      · rw [if_neg hplace]
        by_cases hb : b = old
        · have hgb : g b = ptr := if_pos hb
          rw [hgb]
          exact List.mem_cons_self
        · have hgb : g b = b := if_neg hb
          rw [hgb]
          exact List.mem_cons_of_mem ptr ((List.mem_erase_of_ne hb).mpr hused)
    · rw [hblocks, haddrs]
      -- the new address is none of those that stay
      have hfresh (a : Nat) (ha : a ∈ xs ++ s.blocks.map Prod.fst) (hne : a ≠ old) : a ≠ ptr := by
        rintro rfl
        exact hnew.elim hne fun hnew => hnew.2 (h.used a ha)
      refine List.Nodup.map_on (fun a ha b hb heq => ?_) h.nodup
      by_cases haold : a = old
      · by_cases hbold : b = old
        · rw [haold, hbold]
        · have hgb : ptr = b := (if_pos haold : g a = ptr).symm.trans (heq.trans (if_neg hbold))
          exact absurd hgb.symm (hfresh b hb hbold)
      · by_cases hbold : b = old
        · have hga : a = ptr := (if_neg haold : g a = a).symm.trans (heq.trans (if_pos hbold))
          exact absurd hga (hfresh a ha haold)
        · exact (if_neg haold : g a = a).symm.trans (heq.trans (if_neg hbold))
    · show 0 ∉ if ptr = old then s.used else ptr :: s.used.erase old
      split
      · exact h.zero
      · next hplace =>
        have h0 := (hnew.resolve_left hplace).1
        exact fun hmem => (List.mem_cons.mp hmem).elim (fun heq => h0 heq.symm) fun hin =>
          h.zero (List.mem_of_mem_erase hin)

/-- A record is put in at the end. -/
theorem Tracks.memAppend (h : Tracks s xs) {mem : Nat} (hmem : mem ∈ s.used)
    (hfree : mem ∉ xs ++ s.blocks.map Prod.fst) (ptr : Nat) (at' : Place) (size : Int32) :
    ∃ s', memAppend s mem ptr at' size = some s' ∧ s'.used = s.used ∧ s'.blocks = s.blocks ∧
      Tracks s' (xs ++ [mem]) ∧
      records s' (xs ++ [mem]) = records s xs ++ [⟨ptr, at'.file, at'.func, at'.line, size⟩] := by
  have hprev : s.links.prev .head = some ((xs.map Cell.mem).getLastD .head) := h.ring.chain.prev_eq
  have h0 : mem ≠ 0 := fun heq => h.zero (heq ▸ hmem)
  have hout : Cell.mem mem ∉ Cell.head :: xs.map Cell.mem := by
    rintro (_ | ⟨_, hin⟩)
    obtain ⟨a, ha, heq⟩ := List.mem_map.mp hin
    exact hfree (mem_inj heq ▸ List.mem_append_left _ ha)
  let record : MemT := ⟨ptr, at'.file, at'.func, at'.line, size⟩
  let s' : State :=
    { s with
      mems := Function.update s.mems mem record
      links := s.links.insert (.mem mem) ((xs.map Cell.mem).getLastD .head) .head }
  have happend : MemDebug.memAppend s mem ptr at' size = some s' := by
    unfold MemDebug.memAppend
    exact congrArg (Option.map _) hprev
  have hperm : (xs ++ [mem] ++ s.blocks.map Prod.fst).Perm (mem :: (xs ++ s.blocks.map Prod.fst)) := by
    rw [List.append_assoc]
    exact List.perm_middle
  refine ⟨s', happend, rfl, rfl, ⟨?_, ?_, ?_, h.zero⟩, ?_⟩
  · rw [List.map_append]
    exact h.ring.insert_last hout
  · intro a ha
    rcases List.mem_cons.mp (hperm.mem_iff.mp ha) with rfl | ha
    · exact hmem
    · exact h.used a ha
  · exact hperm.nodup_iff.mpr (List.nodup_cons.mpr ⟨hfree, h.nodup⟩)
  · have hold (a : Nat) (ha : a ∈ xs) : s'.mems a = s.mems a := by
      refine Function.update_of_ne ?_ ..
      rintro rfl
      exact hfree (List.mem_append_left _ ha)
    have hnew : s'.mems mem = record := Function.update_self ..
    unfold records
    rw [List.map_append, List.map_congr_left hold, List.map_singleton, hnew]

/-- A record is taken out and given back. -/
theorem Tracks.unlink {done rest : List Nat} {a : Nat} (h : Tracks s (done ++ a :: rest)) :
    ∃ s', ((listDel s.links (.mem a)).bind fun links => realFree { s with links := links } a) = some s' ∧
      s'.mems = s.mems ∧ s'.blocks = s.blocks ∧ Tracks s' (done ++ rest) := by
  have hring : Links.Ring s.links .head (done.map Cell.mem ++ .mem a :: rest.map Cell.mem) := by
    have hring := h.ring
    rwa [List.map_append, List.map_cons] at hring
  obtain ⟨hnext, hprev⟩ := hring.neighbours
  have hperm : (done ++ a :: rest ++ s.blocks.map Prod.fst).Perm
      (a :: (done ++ rest ++ s.blocks.map Prod.fst)) := List.perm_middle.append_right _
  obtain ⟨hout, hnodup⟩ := List.nodup_cons.mp (hperm.nodup_iff.mp h.nodup)
  let links := (s.links.join ((done.map Cell.mem).getLastD .head) ((rest.map Cell.mem).headD .head)).reset
    (.mem a) none none
  let s' : State := { s with links := links, used := s.used.erase a }
  refine ⟨s', ?_, rfl, rfl, ⟨?_, ?_, hnodup, fun hmem => h.zero (List.mem_of_mem_erase hmem)⟩⟩
  · unfold listDel
    rw [hprev, hnext]
    rfl
  · rw [List.map_append]
    refine hring.join.reset ?_ none none
    rintro (_ | ⟨_, hin⟩)
    rw [← List.map_append] at hin
    obtain ⟨b, hb, heq⟩ := List.mem_map.mp hin
    exact hout (List.mem_append_left _ (mem_inj heq ▸ hb))
  · intro b hb
    have hne : b ≠ a := fun heq => hout (heq ▸ hb)
    exact (List.mem_erase_of_ne hne).mpr (h.used b (hperm.mem_iff.mpr (List.mem_cons_of_mem a hb)))

/-- The loop of `_mem_remove`, when the records of `done` have been passed. What gives the records back is
only asked when there are some with the address. -/
theorem Tracks.removeLoop {done rest : List Nat} (h : Tracks s (done ++ rest)) (ptr : Nat)
    {free : State → Nat → Option State}
    (hfree : free = realFree ∨ ∀ m ∈ records s rest, m.ptr ≠ ptr) {fuel : Nat} (hfuel : rest.length < fuel) :
    ∃ s' xs', removeLoop free ptr fuel s ((rest.map Cell.mem).headD .head)
        (s.links.next ((rest.map Cell.mem).headD .head)) = some s' ∧ s'.blocks = s.blocks ∧
      Tracks s' xs' ∧ records s' xs' = records s done ++ (records s rest).filter (·.ptr ≠ ptr) := by
  induction rest generalizing s done fuel with
  | nil =>
    obtain ⟨fuel, rfl⟩ := Nat.exists_eq_succ_of_ne_zero (Nat.ne_of_gt hfuel)
    rw [List.append_nil] at h
    exact ⟨s, done, rfl, rfl, h, (List.append_nil _).symm⟩
  | cons a rest ih =>
    obtain ⟨fuel, rfl⟩ := Nat.exists_eq_succ_of_ne_zero (Nat.ne_of_gt (Nat.zero_lt_of_lt hfuel))
    have hlt : rest.length < fuel := Nat.lt_of_succ_lt_succ hfuel
    have hnext : s.links.next (.mem a) = some ((rest.map Cell.mem).headD .head) := by
      have hring := h.ring
      rw [List.map_append, List.map_cons] at hring
      exact hring.neighbours.1
    show ∃ s' xs', MemDebug.removeLoop free ptr (fuel + 1) s (.mem a) (s.links.next (.mem a)) = some s' ∧ _
    rw [hnext]
    by_cases hptr : (s.mems a).ptr = ptr
    · have hreal : free = realFree := hfree.resolve_right fun hnone => hnone _ List.mem_cons_self hptr
      obtain ⟨s₁, hdel, hmems, hblocks₁, htracks⟩ := h.unlink
      obtain ⟨s', xs', hloop, hblocks, htracks', hrecords⟩ := ih htracks (.inl hreal) hlt
      refine ⟨s', xs', ?_, hblocks.trans hblocks₁, htracks', ?_⟩
      · rw [MemDebug.removeLoop, if_pos hptr, hreal, hdel, ← hreal]
        exact hloop
      · have hgone : (records s (a :: rest)).filter (·.ptr ≠ ptr) = (records s rest).filter (·.ptr ≠ ptr) :=
          List.filter_cons_of_neg (by simpa using hptr)
        have hsame (l : List Nat) : records s₁ l = records s l := by
          unfold records
          rw [hmems]
        rw [hrecords, hgone, hsame, hsame]
    · have h' : Tracks s (done ++ [a] ++ rest) := by rwa [List.append_assoc]
      have hfree' : free = realFree ∨ ∀ m ∈ records s rest, m.ptr ≠ ptr :=
        hfree.imp_right fun hnone m hm => hnone m (List.mem_cons_of_mem _ hm)
      obtain ⟨s', xs', hloop, hblocks, htracks', hrecords⟩ := ih h' hfree' hlt
      refine ⟨s', xs', ?_, hblocks, htracks', ?_⟩
      · rw [MemDebug.removeLoop, if_neg hptr]
        exact hloop
      · have hstays : (records s (a :: rest)).filter (·.ptr ≠ ptr) =
            s.mems a :: (records s rest).filter (·.ptr ≠ ptr) :=
          List.filter_cons_of_pos (by simpa using hptr)
        rw [hrecords, hstays]
        unfold records
        rw [List.map_append, List.append_assoc]
        rfl

/-- All records with the address are taken out. -/
theorem Tracks.memRemove (h : Tracks s xs) (ptr : Nat) {free : State → Nat → Option State}
    (hfree : free = realFree ∨ ∀ m ∈ records s xs, m.ptr ≠ ptr) :
    ∃ s' xs', memRemove free s ptr = some s' ∧ s'.blocks = s.blocks ∧ Tracks s' xs' ∧
      records s' xs' = (records s xs).filter (·.ptr ≠ ptr) := by
  have hnext : s.links.next .head = some ((xs.map Cell.mem).headD .head) := h.ring.chain.next_eq
  have h' : Tracks s ([] ++ xs) := h
  obtain ⟨s', xs', hloop, hrest⟩ := h'.removeLoop ptr hfree (Nat.lt_succ_of_le h.length_le)
  refine ⟨s', xs', ?_, hrest⟩
  unfold MemDebug.memRemove
  rw [hnext]
  exact hloop

/-! ## The calls -/

variable {wrap : Bool}

/-- The record of a block. -/
def record (ptr : Nat) (at' : Place) (size : Nat) : MemT :=
  ⟨ptr, at'.file, at'.func, at'.line, Int32.ofNat size⟩

/-- The records that come in with a call of `malloc`. -/
def Answer.made (wrap : Bool) (answer : Answer) (size : Nat) : List MemT :=
  (answer.records wrap).map fun _ => record (answer.ptr.getD 0) ⟨"mem.c", "malloc", 0⟩ size

theorem Tracks.malloc (h : Tracks s xs) {answer : Answer} (ha : answer.Fresh wrap s.used) (size : Nat) :
    ∃ s' xs', malloc wrap s size answer = some s' ∧ s'.used = answer.used wrap s.used ∧
      s'.blocks = s.blocks ∧ Tracks s' xs' ∧ records s' xs' = records s xs ++ answer.made wrap size ∧
      ∀ p ∈ answer.ptr, p ∈ s'.used ∧ p ∉ xs' ++ s'.blocks.map Prod.fst := by
  obtain ⟨ptr, mem⟩ := answer
  obtain ⟨hptr, hmem⟩ := ha
  have hout {p : Nat} (hp : p ∉ s.used) : p ∉ xs ++ s.blocks.map Prod.fst := fun hin => hp (h.used p hin)
  have hnone (p : Nat) : p ∉ (none : Option Nat) := Option.not_mem_none p
  cases ptr with
  | none =>
    have hempty : Answer.records wrap ⟨none, mem⟩ = [] := by cases wrap <;> rfl
    refine ⟨s, xs, rfl, ?_, rfl, h, ?_, fun p hp => absurd hp (hnone p)⟩
    · unfold Answer.used
      rw [hempty]
      rfl
    · unfold Answer.made
      rw [hempty]
      exact (List.append_nil _).symm
  | some ptr =>
    obtain ⟨h0, hfresh⟩ := hptr ptr rfl
    have htake := h.take h0
    have hblock (p : Nat) (hp : p ∈ some ptr) : p ∈ ptr :: s.used ∧ p ∉ xs ++ s.blocks.map Prod.fst := by
      cases hp
      exact ⟨List.mem_cons_self, hout hfresh⟩
    cases wrap with
    | false => exact ⟨_, xs, rfl, rfl, rfl, htake, (List.append_nil _).symm, hblock⟩
    | true =>
      cases mem with
      | none => exact ⟨_, xs, rfl, rfl, rfl, htake, (List.append_nil _).symm, hblock⟩
      | some mem =>
        obtain ⟨hm0, hmfresh⟩ := hmem rfl mem rfl
        have hne : mem ≠ ptr := fun heq => hmfresh (List.mem_cons.mpr (.inl heq))
        have hmused : mem ∉ s.used := fun hin => hmfresh (List.mem_cons_of_mem ptr hin)
        obtain ⟨s', happend, hused, hblocks, htracks, hrecords⟩ := (htake.take hm0).memAppend
          List.mem_cons_self (hout hmused) ptr ⟨"mem.c", "malloc", 0⟩ (Int32.ofNat size)
        refine ⟨s', xs ++ [mem], happend, hused, hblocks, htracks, hrecords, fun p hp => ?_⟩
        obtain ⟨hpused, hpout⟩ := hblock p hp
        have hblocks' : s'.blocks = s.blocks := hblocks
        have hused' : s'.used = mem :: ptr :: s.used := hused
        cases hp
        rw [hused', hblocks', List.append_assoc]
        refine ⟨List.mem_cons_of_mem mem hpused, fun hin => hpout ?_⟩
        rw [List.mem_append, List.mem_append, List.mem_singleton] at hin
        exact List.mem_append.mpr (hin.imp_right fun hin => hin.resolve_left (Ne.symm hne))

/-- The records that come in with a call of `__mem_append`. -/
def appended (wrap : Bool) (ptr : Nat) (at' : Place) (size : Nat) (own : Answer) : List MemT :=
  own.made wrap sizeofMemT ++ own.ptr.toList.map fun _ => record ptr at' size

theorem Tracks.memAppendNew (h : Tracks s xs) {own : Answer} (ha : own.Fresh wrap s.used) (ptr : Nat)
    (at' : Place) (size : Nat) :
    ∃ s' xs', memAppendNew wrap s ptr at' size own = some s' ∧ s'.blocks = s.blocks ∧ Tracks s' xs' ∧
      records s' xs' = records s xs ++ appended wrap ptr at' size own := by
  obtain ⟨s₁, xs₁, hmalloc, -, hblocks₁, htracks₁, hrecords₁, hown⟩ := h.malloc ha sizeofMemT
  unfold MemDebug.memAppendNew appended
  rw [hmalloc, ← List.append_assoc, ← hrecords₁]
  cases hptr : own.ptr with
  | none =>
    refine ⟨s₁, xs₁, ?_, hblocks₁, htracks₁, (List.append_nil _).symm⟩
    rw [Option.bind_eq_bind, Option.bind_some]
  | some mem =>
    obtain ⟨hused, hout⟩ := hown mem hptr
    obtain ⟨s', happend, -, hblocks, htracks, hrecords⟩ :=
      htracks₁.memAppend hused hout ptr at' (Int32.ofNat size)
    exact ⟨s', xs₁ ++ [mem], happend, hblocks.trans hblocks₁, htracks, hrecords⟩

/-- The records that come in with a call of `_mem_malloc`. -/
def obtained (wrap : Bool) (size : Nat) (at' : Place) (block own : Answer) : List MemT :=
  block.made wrap size ++ block.ptr.toList.flatMap fun p => appended wrap p at' size own

theorem Tracks.memMalloc (h : Tracks s xs) {block own : Answer} (hblock : block.Fresh wrap s.used)
    (hown : own.Fresh wrap (block.used wrap s.used)) (size : Nat) (at' : Place) :
    ∃ s' xs', memMalloc wrap s size at' block own = some s' ∧ Tracks s' xs' ∧
      s'.blocks = s.blocks ++ (block.ptr.toList.map fun p => (p, size)) ∧
      records s' xs' = records s xs ++ obtained wrap size at' block own := by
  obtain ⟨s₁, xs₁, hmalloc, hused₁, hblocks₁, htracks₁, hrecords₁, hptr₁⟩ := h.malloc hblock size
  unfold MemDebug.memMalloc obtained
  rw [hmalloc, ← List.append_assoc, ← hrecords₁]
  cases hptr : block.ptr with
  | none =>
    refine ⟨s₁, xs₁, rfl, htracks₁, ?_, (List.append_nil _).symm⟩
    rw [hblocks₁]
    exact (List.append_nil _).symm
  | some ptr =>
    obtain ⟨hused, hout⟩ := hptr₁ ptr hptr
    rw [← hused₁] at hown
    obtain ⟨s', xs', happend, hblocks, htracks, hrecords⟩ :=
      Tracks.memAppendNew (htracks₁.addBlock hused hout size) hown ptr at' size
    refine ⟨s', xs', happend, htracks, ?_, ?_⟩
    · rw [hblocks, hblocks₁]
      rfl
    · rw [hrecords, Option.toList_some, List.flatMap_singleton]
      rfl

/-- What `realloc` of a null pointer leaves behind: no record. -/
theorem Tracks.memRealloc_zero (h : Tracks s xs) {ptr : Option Nat} (hptr : Fresh s.used ptr) (size : Nat)
    (at' : Place) (own : Answer) :
    ∃ s', memRealloc wrap s 0 size at' ptr own = some s' ∧ Tracks s' xs ∧
      s'.blocks = s.blocks ++ (ptr.toList.map fun p => (p, size)) ∧ records s' xs = records s xs := by
  cases ptr with
  | none => exact ⟨s, rfl, h, (List.append_nil _).symm, rfl⟩
  | some ptr =>
    obtain ⟨h0, hfresh⟩ := hptr ptr rfl
    exact ⟨_, rfl, (h.take h0).addBlock List.mem_cons_self (fun hin => hfresh (h.used ptr hin)) size, rfl, rfl⟩

/-- What `realloc` of a block leaves behind: records more than there were. -/
theorem Tracks.memRealloc (h : Tracks s xs) {old size : Nat} {ptr : Option Nat} {own : Answer} (hne : old ≠ 0)
    (hold : old ∈ s.blocks.map Prod.fst) (hptr : ptr = some old ∨ Fresh s.used ptr)
    (hown : own.Fresh wrap (MemDebug.reallocBlock s old size ptr).used) (at' : Place) :
    ∃ s' xs', memRealloc wrap s old size at' ptr own = some s' ∧ Tracks s' xs' ∧
      s'.blocks = (MemDebug.reallocBlock s old size ptr).blocks ∧
      records s' xs' = records s xs ++ appended wrap (ptr.getD 0) at' size own := by
  obtain ⟨s', xs', happend, hblocks, htracks, hrecords⟩ :=
    (h.reallocBlock hold hptr size).memAppendNew hown (ptr.getD 0) at' size
  refine ⟨s', xs', ?_, htracks, hblocks, ?_⟩
  · unfold MemDebug.memRealloc
    rw [if_neg hne]
    exact happend
  · have hsame : records (MemDebug.reallocBlock s old size ptr) xs = records s xs := by
      cases ptr
      · rfl
      · rfl
    rw [hrecords, hsame]

/-- Linked with or without `-wrap`, the records of the block are gone. -/
theorem Tracks.memFree (h : Tracks s xs) {ptr : Nat} (hptr : ptr = 0 ∨ ptr ∈ s.blocks.map Prod.fst) :
    ∃ s' xs', memFree wrap s ptr = some s' ∧ Tracks s' xs' ∧
      (ptr = 0 ∧ s' = s ∧ xs' = xs ∨ s'.blocks = s.blocks.filter (·.1 ≠ ptr) ∧
        records s' xs' = (records s xs).filter (·.ptr ≠ ptr)) := by
  unfold MemDebug.memFree
  by_cases h0 : ptr = 0
  · exact ⟨s, xs, if_pos h0, h, .inl ⟨h0, rfl, rfl⟩⟩
  · rw [if_neg h0]
    obtain ⟨s₁, xs₁, hremove₁, hblocks₁, htracks₁, hrecords₁⟩ :=
      (h.dropBlock (hptr.resolve_left h0)).memRemove ptr (.inl rfl)
    cases wrap with
    | false => exact ⟨s₁, xs₁, hremove₁, htracks₁, .inr ⟨hblocks₁, hrecords₁⟩⟩
    | true =>
      -- the second time there is nothing left to take out
      have hnone : ∀ m ∈ records s₁ xs₁, m.ptr ≠ ptr := by
        rw [hrecords₁]
        exact fun m hm => of_decide_eq_true (List.mem_filter.mp hm).2
      obtain ⟨s', xs', hremove, hblocks, htracks, hrecords⟩ :=
        htracks₁.memRemove ptr (.inr hnone : free true = realFree ∨ _)
      refine ⟨s', xs', ?_, htracks, .inr ⟨hblocks.trans hblocks₁, ?_⟩⟩
      · have hfree : free true { s with blocks := s.blocks.filter (·.1 ≠ ptr) } ptr = some s₁ := hremove₁
        rw [hfree]
        exact hremove
      · rw [hrecords, hrecords₁, List.filter_filter]
        exact List.filter_congr fun m _ => Bool.and_self _

/-- No allowed call loses the ring. -/
theorem Tracks.step (h : Tracks s xs) {a : Act} (ha : Allowed wrap s a) :
    ∃ s', MemDebug.step wrap s a = some s' ∧ ∃ xs', Tracks s' xs' := by
  cases a with
  | malloc size at' block own =>
    obtain ⟨s', xs', hs, h', -⟩ := h.memMalloc ha.1 ha.2 size at'
    exact ⟨s', hs, xs', h'⟩
  | realloc old size at' ptr own =>
    obtain ⟨hold, hptr, hown⟩ := ha
    by_cases h0 : old = 0
    · subst h0
      obtain ⟨s', hs, h', -⟩ := h.memRealloc_zero (hptr.resolve_left fun hsame => hsame.2 rfl) size at' own
      exact ⟨s', hs, xs, h'⟩
    · obtain ⟨s', xs', hs, h', -⟩ :=
        h.memRealloc h0 (hold.resolve_left h0) (hptr.imp_left And.left) (hown h0) at'
      exact ⟨s', hs, xs', h'⟩
  | free ptr =>
    obtain ⟨s', xs', hs, h', -⟩ := h.memFree ha
    exact ⟨s', hs, xs', h'⟩

/-! ## The lines and the blocks -/

/-- Address and size of a record as `mem_debug` shows them, and those of a block. -/
def shown (m : MemT) : Int × Int := (m.print.ptr.toNat, m.print.size.toInt)

def real (b : Nat × Nat) : Int × Int := (b.1, b.2)

/-- When an address and a size are shown as they are. -/
theorem shown_record_eq_real {ptr size : Nat} {at' : Place} :
    shown (record ptr at' size) = real (ptr, size) ↔ ptr < 2 ^ 32 ∧ size < 2 ^ 31 := by
  have haddr : ((UInt32.ofNat ptr).toNat : Int) = ptr ↔ ptr < 2 ^ 32 := by
    rw [UInt32.toNat_ofNat']
    omega
  have hsize : (Int32.ofNat size).toInt = size ↔ size < 2 ^ 31 := by
    have hmod : (Int32.ofNat size).toInt = (size : Int).bmod (2 ^ 32) := Int32.toInt_ofNat' ..
    rw [hmod]
    have hle : (size : Int).bmod (2 ^ 32) < 2 ^ 31 := by
      have := Int.bmod_lt (x := size) (m := 2 ^ 32) (by decide)
      omega
    constructor
    · intro heq
      omega
    · intro hlt
      exact Int.bmod_eq_of_le (by omega) (by omega)
  show ((_, _) : Int × Int) = (_, _) ↔ _
  rw [Prod.mk.injEq]
  exact and_congr haddr hsize

theorem real_injective : Function.Injective real := fun _ _ h =>
  Prod.ext (Int.ofNat.inj (congrArg Prod.fst h)) (Int.ofNat.inj (congrArg Prod.snd h))

theorem Tracks.right_iff_perm (h : Tracks s xs) :
    Right s ↔ ((records s xs).map shown).Perm (s.blocks.map real) := by
  have hmap : ((records s xs).map MemT.print).map (fun l => ((l.ptr.toNat : Int), l.size.toInt)) =
      (records s xs).map shown := List.map_map
  unfold Right
  rw [h.memDebug_eq, ← hmap]
  exact ⟨fun ⟨lines, heq, hperm⟩ => Option.some.inj heq ▸ hperm, fun hperm => ⟨_, rfl, hperm⟩⟩

/-- The records are those of the blocks, in the order in which these were obtained. -/
def Listed (s : State) : Prop :=
  ∃ xs, Tracks s xs ∧
    (records s xs).map (fun m => (m.ptr, shown m)) = s.blocks.map fun b => (b.1, real b)

theorem listed_init : Listed init := ⟨[], tracks_init, rfl⟩

/-- What is listed in one order is listed. -/
theorem map_shown_eq (h : (records s xs).map (fun m => (m.ptr, shown m)) =
    s.blocks.map fun b => (b.1, real b)) : (records s xs).map shown = s.blocks.map real := by
  have hsnd := congrArg (List.map Prod.snd) h
  rw [List.map_map, List.map_map] at hsnd
  exact hsnd

theorem Listed.right (h : Listed s) : Right s := by
  obtain ⟨xs, htracks, hrecords⟩ := h
  rw [htracks.right_iff_perm, map_shown_eq hrecords]

/-- How many records come in with a call of `_mem_malloc` that gives out a block. -/
def entries (wrap : Bool) (block own : Answer) : Nat :=
  (block.records wrap).length + ((own.records wrap).length + own.ptr.toList.length)

/-- The calls after which the list is still right: a block that is obtained gets one record, and can be
shown; `mem_realloc` neither obtains, moves nor resizes a block, and finds no room for its record; the
others do nothing to the list that they should not. -/
def Kept (wrap : Bool) (s : State) : Act → Prop
  | .malloc size _ block own => ∀ p ∈ block.ptr, entries wrap block own = 1 ∧ p < 2 ^ 32 ∧ size < 2 ^ 31
  | .realloc old size _ ptr own =>
    if old = 0 then ptr = none else own.ptr = none ∧ ∀ p ∈ ptr, p = old ∧ (old, size) ∈ s.blocks
  | .free _ => True

theorem length_appended (ptr : Nat) (at' : Place) (size : Nat) (own : Answer) :
    (appended wrap ptr at' size own).length = (own.records wrap).length + own.ptr.toList.length := by
  unfold appended Answer.made
  rw [List.length_append, List.length_map, List.length_map]

/-- Without a record there is none for it. -/
theorem records_none {own : Answer} (h : own.ptr = none) : own.records wrap = [] := by
  unfold Answer.records
  rw [h, Option.isSome_none, Bool.and_false]
  rfl

theorem appended_none {ptr : Nat} {at' : Place} {size : Nat} {own : Answer} (h : own.ptr = none) :
    appended wrap ptr at' size own = [] := by
  unfold appended Answer.made
  rw [records_none h, h]
  rfl

/-- If there is one record, it is that of the block. -/
theorem obtained_eq_singleton {size ptr : Nat} {at' : Place} {block own : Answer} (hptr : block.ptr = some ptr)
    (hone : entries wrap block own = 1) : ∃ at'', obtained wrap size at' block own = [record ptr at'' size] := by
  unfold entries at hone
  unfold obtained
  rw [hptr, Option.toList_some, List.flatMap_singleton]
  cases hmem : own.ptr with
  | none =>
    have hblock : (block.records wrap).length = 1 := by
      rw [records_none hmem, hmem] at hone
      exact hone
    obtain ⟨mem, hmem'⟩ := List.length_eq_one_iff.mp hblock
    refine ⟨⟨"mem.c", "malloc", 0⟩, ?_⟩
    rw [appended_none hmem, List.append_nil]
    unfold Answer.made
    rw [hmem', hptr]
    rfl
  | some mem =>
    rw [hmem, Option.toList_some, List.length_singleton] at hone
    have hblock : block.records wrap = [] := List.length_eq_zero_iff.mp (by omega)
    have hown : own.records wrap = [] := List.length_eq_zero_iff.mp (by omega)
    refine ⟨at', ?_⟩
    unfold appended Answer.made
    rw [hblock, hown, hmem]
    rfl

/-- **One malloc.** -/
theorem Listed.memMalloc (h : Listed s) {block own : Answer} (hblock : block.Fresh wrap s.used)
    (hown : own.Fresh wrap (block.used wrap s.used)) {size : Nat} {at' : Place} {s' : State}
    (hs : memMalloc wrap s size at' block own = some s') :
    (Kept wrap s (.malloc size at' block own) → Listed s') ∧
      (Right s' → Kept wrap s (.malloc size at' block own)) := by
  obtain ⟨xs, htracks, hrecords⟩ := h
  obtain ⟨_, xs', hs', htracks', hblocks, hrecords'⟩ := htracks.memMalloc hblock hown size at'
  cases hs.symm.trans hs'
  have hshown := map_shown_eq hrecords
  cases hptr : block.ptr with
  | none =>
    have hempty : obtained wrap size at' block own = [] := by
      unfold obtained Answer.made
      rw [records_none hptr, hptr]
      rfl
    refine ⟨fun _ => ⟨xs', htracks', ?_⟩, fun _ p hp => absurd (hptr ▸ hp) (Option.not_mem_none p)⟩
    rw [hrecords', hblocks, hempty, hptr, List.append_nil, hrecords]
    exact congrArg (List.map _) (List.append_nil _).symm
  | some ptr =>
    have hadded : s'.blocks = s.blocks ++ [(ptr, size)] := by
      rw [hblocks, hptr]
      rfl
    constructor
    · intro hkept
      obtain ⟨hone, hfits⟩ := hkept ptr hptr
      obtain ⟨at'', hnew⟩ := obtained_eq_singleton hptr hone
      refine ⟨xs', htracks', ?_⟩
      rw [hrecords', hnew, hadded, List.map_append, List.map_append, hrecords, List.map_singleton,
        List.map_singleton, shown_record_eq_real.mpr hfits]
      rfl
    · rw [htracks'.right_iff_perm, hrecords', hadded, List.map_append, List.map_append, hshown,
        List.perm_append_left_iff, List.map_singleton]
      intro hperm p hp
      have hp' : ptr = p := Option.some.inj (hptr.symm.trans hp)
      subst hp'
      have hone : entries wrap block own = 1 := by
        have hlen := hperm.length_eq
        rw [List.length_map, List.length_singleton] at hlen
        unfold obtained Answer.made at hlen
        rw [hptr, Option.toList_some, List.flatMap_singleton, List.length_append, List.length_map,
          length_appended] at hlen
        exact hlen
      obtain ⟨at'', hnew⟩ := obtained_eq_singleton hptr hone
      rw [hnew, List.map_singleton, List.singleton_perm] at hperm
      exact ⟨hone, shown_record_eq_real.mp (List.singleton_injective hperm)⟩

/-- **One realloc of a null pointer.** -/
theorem Listed.memRealloc_zero (h : Listed s) {ptr : Option Nat} {own : Answer} (hptr : Fresh s.used ptr)
    {size : Nat} {at' : Place} {s' : State} (hs : memRealloc wrap s 0 size at' ptr own = some s') :
    (ptr = none → Listed s') ∧ (Right s' → ptr = none) := by
  obtain ⟨xs, htracks, hrecords⟩ := h
  obtain ⟨_, hs', htracks', hblocks, hrecords'⟩ := htracks.memRealloc_zero hptr size at' own
  cases hs.symm.trans hs'
  constructor
  · rintro rfl
    refine ⟨xs, htracks', ?_⟩
    rw [hrecords', hblocks]
    simpa using hrecords
  · rw [htracks'.right_iff_perm, hrecords', hblocks, map_shown_eq hrecords, List.map_append]
    intro hperm
    have hlen := hperm.length_eq
    rw [List.length_append] at hlen
    cases ptr with
    | none => rfl
    | some ptr => exact absurd hlen (Nat.ne_of_lt (Nat.lt_succ_self _))

/-- The blocks after one of them was resized. -/
theorem resized {old : Nat} (hnodup : (s.blocks.map Prod.fst).Nodup)
    (hold : old ∈ s.blocks.map Prod.fst) (ptr size : Nat) :
    ∃ pre post size', s.blocks = pre ++ (old, size') :: post ∧
      (reallocBlock s old size (some ptr)).blocks = pre ++ (ptr, size) :: post := by
  obtain ⟨⟨a, size'⟩, hb, ha⟩ := List.mem_map.mp hold
  obtain ⟨pre, post, hblocks⟩ := List.append_of_mem hb
  have ha : a = old := ha
  subst ha
  refine ⟨pre, post, size', hblocks, ?_⟩
  rw [hblocks, List.map_append, List.map_cons] at hnodup
  have hout := (List.nodup_cons.mp (List.perm_middle.nodup_iff.mp hnodup)).1
  rw [← List.map_append] at hout
  -- no other block has the address
  have hstay (l : List (Nat × Nat)) (hl : l ⊆ pre ++ post) :
      l.map (fun b => if b.1 = a then (ptr, size) else b) = l := by
    refine (List.map_congr_left fun b hb => if_neg ?_).trans (List.map_id l)
    intro heq
    have hin : b.1 ∈ (pre ++ post).map Prod.fst := List.mem_map_of_mem (hl hb)
    exact hout (heq ▸ hin)
  show s.blocks.map (fun b => if b.1 = a then (ptr, size) else b) = _
  rw [hblocks, List.map_append, List.map_cons, hstay pre (List.subset_append_left _ _),
    hstay post (List.subset_append_right _ _), if_pos rfl]

/-- **One realloc of a block.** -/
theorem Listed.memRealloc (h : Listed s) {old size : Nat} {ptr : Option Nat} {own : Answer} (hne : old ≠ 0)
    (hold : old ∈ s.blocks.map Prod.fst) (hptr : ptr = some old ∨ Fresh s.used ptr)
    (hown : own.Fresh wrap (MemDebug.reallocBlock s old size ptr).used) {at' : Place} {s' : State}
    (hs : memRealloc wrap s old size at' ptr own = some s') :
    ((own.ptr = none ∧ ∀ p ∈ ptr, p = old ∧ (old, size) ∈ s.blocks) → Listed s') ∧
      (Right s' → own.ptr = none ∧ ∀ p ∈ ptr, p = old ∧ (old, size) ∈ s.blocks) := by
  obtain ⟨xs, htracks, hrecords⟩ := h
  obtain ⟨_, xs', hs', htracks', hblocks, hrecords'⟩ := htracks.memRealloc hne hold hptr hown at'
  cases hs.symm.trans hs'
  have hshown := map_shown_eq hrecords
  cases hmem : own.ptr with
  | some mem =>
    -- there are more records, and not more blocks
    have hwrong : ¬Right s' := by
      rw [htracks'.right_iff_perm, hrecords', hblocks]
      intro hperm
      have hlen := hperm.length_eq
      have hsame : ((MemDebug.reallocBlock s old size ptr).blocks.map real).length =
          (s.blocks.map real).length := by
        rw [List.length_map, List.length_map]
        cases ptr with
        | none => rfl
        | some ptr => exact List.length_map _
      rw [List.map_append, hshown, List.length_append, hsame, List.length_map, List.length_map,
        length_appended, hmem, Option.toList_some, List.length_singleton] at hlen
      omega
    exact ⟨fun hkept => absurd hkept.1 (Option.some_ne_none _), fun hright => absurd hright hwrong⟩
  | none =>
    rw [appended_none hmem, List.append_nil] at hrecords'
    cases ptr with
    | none =>
      refine ⟨fun _ => ⟨xs', htracks', ?_⟩, fun _ => ⟨rfl, fun p hp => absurd hp (Option.not_mem_none p)⟩⟩
      rw [hrecords', hblocks]
      exact hrecords
    | some ptr =>
      obtain ⟨pre, post, size', hbefore, hafter⟩ :=
        resized (List.nodup_append.mp htracks.nodup).2.1 hold ptr size
      have hold' : (old, size') ∈ s.blocks := hbefore ▸ List.mem_append_right pre List.mem_cons_self
      constructor
      · rintro ⟨-, hkept⟩
        obtain ⟨rfl, hmem'⟩ := hkept ptr rfl
        -- the address has one size
        have hsize : size = size' := by
          have hnodup := (List.nodup_append.mp htracks.nodup).2.1
          exact congrArg Prod.snd (List.inj_on_of_nodup_map hnodup hmem' hold' rfl)
        subst hsize
        refine ⟨xs', htracks', ?_⟩
        rw [hrecords', hblocks, hrecords, hbefore, hafter]
      · rw [htracks'.right_iff_perm, hrecords', hblocks, hshown, hbefore, hafter, List.map_append,
          List.map_append, List.perm_append_left_iff, List.map_cons, List.map_cons]
        intro hperm
        have hone : [real (old, size')].Perm [real (ptr, size)] :=
          (List.perm_append_right_iff (post.map real)).mp hperm
        have heq := real_injective (List.singleton_injective (List.singleton_perm.mp hone))
        cases heq
        refine ⟨rfl, fun p hp => ⟨(Option.some.inj hp).symm, ?_⟩⟩
        exact List.mem_append_right pre List.mem_cons_self

/-- **One free.** -/
theorem Listed.memFree (h : Listed s) {ptr : Nat} (hptr : ptr = 0 ∨ ptr ∈ s.blocks.map Prod.fst)
    {s' : State} (hs : memFree wrap s ptr = some s') : Listed s' := by
  obtain ⟨xs, htracks, hrecords⟩ := h
  obtain ⟨_, xs', hs', htracks', hcases⟩ := htracks.memFree hptr
  cases hs.symm.trans hs'
  rcases hcases with ⟨-, rfl, rfl⟩ | ⟨hblocks, hrecords'⟩
  · exact ⟨xs', htracks', hrecords⟩
  · refine ⟨xs', htracks', ?_⟩
    have hfilter := congrArg (List.filter fun e => decide (e.1 ≠ ptr)) hrecords
    rw [List.filter_map, List.filter_map] at hfilter
    rw [hrecords', hblocks]
    exact hfilter

/-- **One call.** -/
theorem Listed.step (h : Listed s) {a : Act} (ha : Allowed wrap s a) {s' : State}
    (hs : MemDebug.step wrap s a = some s') : (Kept wrap s a → Listed s') ∧ (Right s' → Kept wrap s a) := by
  cases a with
  | malloc size at' block own => exact h.memMalloc ha.1 ha.2 hs
  | realloc old size at' ptr own =>
    obtain ⟨hold, hptr, hown⟩ := ha
    dsimp only [Kept]
    by_cases h0 : old = 0
    · subst h0
      rw [if_pos rfl]
      exact h.memRealloc_zero (hptr.resolve_left fun hsame => hsame.2 rfl) hs
    · rw [if_neg h0]
      exact h.memRealloc h0 (hold.resolve_left h0) (hptr.imp_left And.left) (hown h0) hs
  | free ptr => exact ⟨fun _ => h.memFree ha hs, fun _ => trivial⟩

/-- **Every run.** The calls always come back, and the list of `mem_debug` is right after each of them exactly
when all of them are such that it stays right. -/
theorem list_right_iff (wrap : Bool) (acts : List Act) (h : Meets (step wrap) (Allowed wrap) init acts) :
    (∃ t, run (step wrap) init acts = some t) ∧
      ((∀ as bs t, acts = as ++ bs → run (step wrap) init as = some t → Right t) ↔
        Meets (step wrap) (Kept wrap) init acts) := by
  have htracks (s : State) (a : Act) (hinv : ∃ xs, Tracks s xs) (ha : Allowed wrap s a) :
      ∃ s', step wrap s a = some s' ∧ ∃ xs', Tracks s' xs' := hinv.elim fun _ h => h.step ha
  obtain ⟨t, hrun, -⟩ := run_of_meets htracks ⟨[], tracks_init⟩ h
  have hlisted (s : State) (a : Act) (s' : State) (hinv : Listed s) (ha : Allowed wrap s a)
      (hs : step wrap s a = some s') : (Kept wrap s a → Listed s') ∧ (Right s' → Kept wrap s a) :=
    hinv.step ha hs
  exact ⟨⟨t, hrun⟩, good_iff_meets_of_allowed (fun _ h => Listed.right h) hlisted listed_init h hrun⟩

/-- Two blocks; the first is given back, the second stays where it is, and a third one lies where the record
of the first was. -/
def acts : List Act :=
  [.malloc 8 ⟨"main.c", "main", 3⟩ ⟨some 16, none⟩ ⟨some 32, none⟩,
    .malloc 4 ⟨"main.c", "main", 4⟩ ⟨some 48, none⟩ ⟨some 64, none⟩, .free 16,
    .realloc 48 1024 ⟨"main.c", "main", 6⟩ none ⟨none, none⟩,
    .malloc 12 ⟨"main.c", "main", 7⟩ ⟨some 32, none⟩ ⟨some 16, none⟩]

theorem list_right_iff_acts : Meets (step false) (Allowed false) init acts ∧
    (∃ t, run (step false) init acts = some t) ∧
      ((∀ as bs t, acts = as ++ bs → run (step false) init as = some t → Right t) ↔
        Meets (step false) (Kept false) init acts) := by
  have h : Meets (step false) (Allowed false) init acts := by decide +kernel
  exact ⟨h, list_right_iff false acts h⟩

/-- A block that grows where it is. -/
def grown : List Act :=
  [.malloc 8 ⟨"main.c", "main", 3⟩ ⟨some 16, none⟩ ⟨some 32, none⟩,
    .realloc 16 16 ⟨"main.c", "main", 4⟩ (some 16) ⟨some 64, none⟩]

/-- It has two entries then. -/
theorem not_right_grown : Meets (step false) (Allowed false) init grown ∧
    ∃ t, run (step false) init grown = some t ∧ ¬Right t := by
  refine ⟨by decide +kernel, ?_⟩
  have hlen : ((run (step false) init grown).bind fun t => (memDebug t).map fun lines =>
      (lines.length, t.blocks.length)) = some (2, 1) := by decide +kernel
  obtain ⟨t, hrun, hmap⟩ := Option.bind_eq_some_iff.mp hlen
  obtain ⟨lines, hlines, heq⟩ := Option.map_eq_some_iff.mp hmap
  obtain ⟨hlines', hblocks⟩ := Prod.mk.inj heq
  refine ⟨t, hrun, ?_⟩
  rintro ⟨lines', hsome, hperm⟩
  cases hlines.symm.trans hsome
  have hlength := hperm.length_eq
  rw [List.length_map, List.length_map, hlines', hblocks] at hlength
  exact absurd hlength (by decide)

end ProgrammingPath.MemDebug
