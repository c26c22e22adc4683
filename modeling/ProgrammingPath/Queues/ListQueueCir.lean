import ProgrammingPath.Lib.RingBuffer
import ProgrammingPath.Lib.Simulation

/-!
# `ListQueueCir`

A queue of `maxSize` slots in a circle. Every slot keeps the memory of the last element it had, and a new element
is copied into it when `dlen`, the length of the last one, says that it fits. `Represents` connects the slots to the
queue they stand for, a list of elements with room for `maxSize`, and says why the copy always fits.
-/

namespace ProgrammingPath.ListQueueCir

open ProgrammingPath.Lib

/-! ## The queue -/

variable {β : Type}

/-- `ListQueueCirItem`: the block behind `data.vptr`, if there is one, with its allocated size as length. -/
structure Item (β : Type) where
  vptr : Option (List UInt8)
  dlen : Nat
  bindData : β

structure Queue (β : Type) where
  datas : Nat → Item β
  front : Nat
  rear : Nat
  maxSize : Nat
  length : Nat

/-- What a caller finds at a pointer to an item. -/
structure View (β : Type) where
  bytes : List UInt8
  dlen : Nat
  bindData : β
  deriving DecidableEq

def Item.view (item : Item β) : View β :=
  ⟨(item.vptr.getD []).take item.dlen, item.dlen, item.bindData⟩

/-- `ListQueueCir_New`, with what `calloc` leaves in the slots. -/
def new (null : β) (maxSize : Nat) : Queue β := ⟨fun _ => ⟨none, 0, null⟩, 0, 0, maxSize, 0⟩

/-- `memcpy` to the start of a block; `none` when it does not fit. -/
def copyInto (block data : List UInt8) : Option (List UInt8) :=
  if data.length ≤ block.length then some (data ++ block.drop data.length) else none

/-- The slot after `ListQueueCir_Add2` put the data into it. What `malloc` leaves in a block is `fill`. -/
def Item.store (item : Item β) (fill : UInt8) (data : List UInt8) (bindData : β) : Option (Item β) :=
  -- a block that is too small for the data is freed
  let vptr := if item.dlen < data.length then none else item.vptr
  let block := vptr.getD (List.replicate data.length fill)
  (copyInto block data).map fun block => ⟨some block, data.length, bindData⟩

/-- What is called. A callback of `ListQueueCir_PopTo` gets the item and returns a number. -/
inductive Op (β : Type)
  | add (data : List UInt8) (bindData : β)
  | add2 (data : List UInt8) (bindData : β) (sigflg : Bool)
  | popTo (bkfun : View β → Int)
  | popItem
  | getFirst
  | length
  | isFull

/-- What is returned: whether there is an item, an item, the callback's result with what it was shown, or a
number. -/
inductive Result (β : Type)
  | added (ok : Bool)
  | item (item : Option (View β))
  | popped (ret : Int) (shown : Option (View β))
  | number (n : Nat)

/-- `ListQueueCir_Add2`. The signal goes to waiting threads only. -/
def Queue.add2 (q : Queue β) (fill : UInt8) (data : List UInt8) (bindData : β) :
    Option (Queue β × Result β) :=
  if q.length < q.maxSize then
    ((q.datas q.rear).store fill data bindData).map fun item =>
      ({ q with
          datas := Function.update q.datas q.rear item
          rear := (q.rear + 1) % q.maxSize
          length := q.length + 1 }, .added true)
  else some (q, .added false)

/-- The front moves on. -/
def Queue.advance (q : Queue β) : Queue β :=
  { q with front := (q.front + 1) % q.maxSize, length := q.length - 1 }

/-- The pointer to the first item. -/
def Queue.first (q : Queue β) : Option (View β) :=
  if 0 < q.length then some (q.datas q.front).view else none

/-- One call. -/
def step (fill : UInt8) (q : Queue β) : Op β → Option (Queue β × Result β)
  | .add data bindData => q.add2 fill data bindData
  | .add2 data bindData _ => q.add2 fill data bindData
  | .popTo bkfun =>
    match q.first with
    | some v => some (q.advance, .popped (bkfun v) (some v))
    | none => some (q, .popped (-1) none)
  | .popItem =>
    match q.first with
    | some v => some (q.advance, .item (some v))
    | none => some (q, .item none)
  | .getFirst => some (q, .item q.first)
  | .length => some (q, .number q.length)
  | .isFull => some (q, .number (if q.length = q.maxSize then 1 else 0))

/-! ## A bounded queue -/

/-- The element that was added. -/
def element (data : List UInt8) (bindData : β) : View β := ⟨data, data.length, bindData⟩

/-- A queue with room for `capacity` elements. -/
def fifoStep (capacity : Nat) (items : List (View β)) : Op β → Option (List (View β) × Result β)
  | .add data bindData | .add2 data bindData _ =>
    if items.length = capacity then some (items, .added false)
    else some (items ++ [element data bindData], .added true)
  | .popTo bkfun =>
    match items with
    | v :: rest => some (rest, .popped (bkfun v) (some v))
    | [] => some ([], .popped (-1) none)
  | .popItem => some (items.tail, .item items.head?)
  | .getFirst => some (items, .item items.head?)
  | .length => some (items, .number items.length)
  | .isFull => some (items, .number (if items.length = capacity then 1 else 0))

/-! ## The slots stand for the queue -/

/-- A block has room for `dlen` bytes, and a slot without a block has `dlen` 0. -/
def Item.Sound (item : Item β) : Prop :=
  match item.vptr with
  | some block => item.dlen ≤ block.length
  | none => item.dlen = 0

/-- The slots hold the elements, and every slot is sound, whether it is in use or not. -/
structure Represents (capacity : Nat) (q : Queue β) (items : List (View β)) : Prop where
  maxSize : q.maxSize = capacity
  pos : 0 < q.maxSize
  front_lt : q.front < q.maxSize
  rear : q.rear = (q.front + q.length) % q.maxSize
  length_le : q.length ≤ q.maxSize
  contents : RingBuffer.contents (fun i => (q.datas i).view) q.maxSize q.front q.length = items
  sound : ∀ i, (q.datas i).Sound

variable {q : Queue β} {items : List (View β)} {capacity : Nat} {fill : UInt8} {data : List UInt8}
  {bindData : β}

/-- The copy fits: either the block is a new one, or it has room for what was in it before. -/
theorem Item.store_sound {item : Item β} (h : item.Sound) (fill : UInt8) (data : List UInt8) (bindData : β) :
    ∃ new : Item β, item.store fill data bindData = some new ∧ new.Sound ∧
      new.view = element data bindData := by
  -- a block that is kept has room for `dlen` bytes, and `dlen` is not less than what comes
  have hroom : data.length ≤
      ((if item.dlen < data.length then none else item.vptr).getD
        (List.replicate data.length fill)).length := by
    split
    · exact Nat.le_of_eq (List.length_replicate).symm
    · next hle =>
      rw [Item.Sound] at h
      split at h
      · next block hblock =>
        rw [hblock]
        exact Nat.le_trans (Nat.not_lt.mp hle) h
      · next hblock =>
        rw [hblock]
        exact Nat.le_of_eq (List.length_replicate).symm
  simp only [Item.store, copyInto, if_pos hroom, Option.map_some]
  refine ⟨_, rfl, ?_, ?_⟩
  · show data.length ≤ (data ++ _).length
    rw [List.length_append]
    exact Nat.le_add_right _ _
  · simp [Item.view, element]

theorem Represents.length (h : Represents capacity q items) : items.length = q.length := by
  rw [← h.contents, RingBuffer.length_contents]

/-- An element is added when there is room, and only then. -/
theorem Represents.add2 (h : Represents capacity q items) :
    ∃ q' items' r, q.add2 fill data bindData = some (q', r) ∧
      fifoStep capacity items (.add data bindData) = some (items', r) ∧
      Represents capacity q' items' := by
  obtain rfl := h.maxSize
  rw [Queue.add2, fifoStep, h.length]
  by_cases hlt : q.length < q.maxSize
  · obtain ⟨new, hstore, hsound, hview⟩ := Item.store_sound (h.sound q.rear) fill data bindData
    -- the slot at the rear is written, and no other one
    rw [if_pos hlt, if_neg (Nat.ne_of_lt hlt), hstore]
    refine ⟨_, _, _, rfl, rfl, ⟨rfl, h.pos, h.front_lt, ?_, hlt, ?_, ?_⟩⟩
    · show (q.rear + 1) % q.maxSize = (q.front + (q.length + 1)) % q.maxSize
      rw [h.rear, Nat.mod_add_mod, Nat.add_assoc]
    · have hviews : (fun i => (Function.update q.datas q.rear new i).view) =
          Function.update (fun i => (q.datas i).view) ((q.front + q.length) % q.maxSize)
            (element data bindData) := by
        funext i
        rw [← h.rear, ← hview]
        by_cases hi : i = q.rear
        · rw [hi, Function.update_self, Function.update_self]
        · rw [Function.update_of_ne hi, Function.update_of_ne hi]
      show RingBuffer.contents (fun i => (Function.update q.datas q.rear new i).view) q.maxSize
        q.front (q.length + 1) = _
      rw [hviews, RingBuffer.contents_update hlt, h.contents]
    · intro i
      show (Function.update q.datas q.rear new i).Sound
      by_cases hi : i = q.rear
      · rw [hi, Function.update_self]
        exact hsound
      · rw [Function.update_of_ne hi]
        exact h.sound i
  · have hfull : q.length = q.maxSize := Nat.le_antisymm h.length_le (Nat.not_lt.mp hlt)
    rw [if_neg hlt, if_pos hfull]
    exact ⟨q, items, _, rfl, rfl, h⟩

/-- The first item is the oldest element. -/
theorem Represents.first (h : Represents capacity q items) : q.first = items.head? := by
  rw [Queue.first, ← h.contents]
  cases hlen : q.length with
  | zero => rfl
  | succ len =>
    rw [RingBuffer.contents_succ, Nat.mod_eq_of_lt h.front_lt, if_pos (Nat.succ_pos len)]
    rfl

/-- And it goes. -/
theorem Represents.advance {v : View β} {rest : List (View β)} (h : Represents capacity q (v :: rest)) :
    Represents capacity q.advance rest := by
  have hlen : q.length = rest.length + 1 := h.length.symm
  have hcontents := h.contents
  rw [hlen, RingBuffer.contents_succ, List.cons.injEq] at hcontents
  have hpred : q.length - 1 = rest.length := by omega
  refine ⟨h.maxSize, h.pos, Nat.mod_lt _ h.pos, ?_, ?_, ?_, h.sound⟩
  · show q.rear = ((q.front + 1) % q.maxSize + (q.length - 1)) % q.maxSize
    rw [h.rear, hpred, hlen, Nat.mod_add_mod]
    congr 1
    omega
  · show q.length - 1 ≤ q.maxSize
    exact Nat.le_trans (Nat.sub_le _ _) h.length_le
  · show RingBuffer.contents _ q.maxSize ((q.front + 1) % q.maxSize) (q.length - 1) = rest
    rw [hpred]
    exact hcontents.2

/-- One call. -/
theorem Represents.step (h : Represents capacity q items) (op : Op β) :
    ∃ q' items' r, step fill q op = some (q', r) ∧ fifoStep capacity items op = some (items', r) ∧
      Represents capacity q' items' := by
  cases op with
  | add data bindData => exact h.add2
  | add2 data bindData sigflg => exact h.add2
  | popTo bkfun =>
    cases items with
    | nil =>
      simp only [ListQueueCir.step, fifoStep, h.first, List.head?_nil]
      exact ⟨_, _, _, rfl, rfl, h⟩
    | cons v rest =>
      simp only [ListQueueCir.step, fifoStep, h.first, List.head?_cons]
      exact ⟨_, _, _, rfl, rfl, h.advance⟩
  | popItem =>
    cases items with
    | nil =>
      simp only [ListQueueCir.step, fifoStep, h.first, List.head?_nil]
      exact ⟨_, _, _, rfl, rfl, h⟩
    | cons v rest =>
      simp only [ListQueueCir.step, fifoStep, h.first, List.head?_cons]
      exact ⟨_, _, _, rfl, rfl, h.advance⟩
  | getFirst =>
    rw [ListQueueCir.step, h.first]
    exact ⟨q, items, _, rfl, rfl, h⟩
  | length =>
    rw [ListQueueCir.step, ← h.length]
    exact ⟨q, items, _, rfl, rfl, h⟩
  | isFull =>
    rw [ListQueueCir.step, ← h.length, h.maxSize]
    exact ⟨q, items, _, rfl, rfl, h⟩

theorem represents_new (null : β) {maxSize : Nat} (h : 0 < maxSize) :
    Represents maxSize (new null maxSize) [] :=
  ⟨rfl, h, h, (Nat.zero_mod maxSize).symm, Nat.zero_le _, rfl, fun _ => rfl⟩

/-- **The queue is a bounded queue.** Every copy fits, and every sequence of calls returns what a queue of
elements with room for `maxSize` returns. -/
theorem outputs_eq_fifo (fill : UInt8) (null : β) {maxSize : Nat} (h : 1 ≤ maxSize) (ops : List (Op β)) :
    ∃ q items out, outputs (step fill) (new null maxSize) ops = some (q, out) ∧
      outputs (fifoStep maxSize) [] ops = some (items, out) ∧ items.length ≤ maxSize ∧
      q.length = items.length := by
  obtain ⟨q, items, out, hq, hitems, hrep⟩ :=
    outputs_of_total_simulation (fun q items op (h : Represents maxSize q items) => h.step op) ops
      (represents_new null h)
  refine ⟨q, items, out, hq, hitems, ?_, hrep.length.symm⟩
  rw [hrep.length, ← hrep.maxSize]
  exact hrep.length_le

/-- A slot that had three bytes, then one, and then three again. -/
theorem outputs_eq_fifo_reused :
    ∃ q items out, outputs (step 0) (new () 1)
        [.add [1, 2, 3] (), .popItem, .add [4] (), .popItem, .add [5, 6, 7] (), .popItem] =
          some (q, out) ∧
      outputs (fifoStep 1) []
        [.add [1, 2, 3] (), .popItem, .add [4] (), .popItem, .add [5, 6, 7] (), .popItem] =
          some (items, out) ∧ items.length ≤ 1 ∧ q.length = items.length :=
  outputs_eq_fifo 0 () (Nat.le_refl 1) _

end ProgrammingPath.ListQueueCir
