import Mathlib.Algebra.GroupWithZero.Nat
import Mathlib.Algebra.Order.BigOperators.Group.List
import Mathlib.Algebra.Order.Ring.Nat
import ProgrammingPath.Mes.Collection

/-!
# Reading the samples (`Server/collection.cpp`)

`parsedata` puts two pressures into `pressureList` and one value into each of the four temperature
queues. `read_pressure_value` takes up to so many pressures out, and loses one when there are more.
`read_temperature_value` computes a mean without the largest and the smallest value, but the two are
carried over from the value that was computed before, so the mean need not lie among the samples;
`Fair` says when it does. The queues are written behind their `count`, which nothing holds below
their size.

A step of `Account` is `none` when `parsedata` would write outside of a queue. What was returned and
what was computed is recorded.
-/

namespace ProgrammingPath.Mes.Collection

open ProgrammingPath.Lib

/-! ## The two functions -/

/-- What `read_temperature_value` does to a queue. -/
def Temperature.compute (t : Temperature) : Temperature :=
  if 10 < t.count then
    -- the difference is a `quint32`, and the quotient is stored in a `quint16`
    let lasttemp := (t.sum + 4294967296 - (t.maxtemp + t.mintemp)) % 4294967296 / (t.count - 2) % 65536
    { tempbuff := [], count := 0, maxtemp := lasttemp, mintemp := lasttemp, lasttemp, sum := 0 }
  else t

/-- One turn of the loop of `read_temperature_value`. -/
def readChannel (r : List Nat × State) (i : Nat) : List Nat × State :=
  if i < 4 then
    let queue := r.2.tempqueue.modify i Temperature.compute
    (r.1 ++ (queue[i]?.map Temperature.lasttemp).toList, { r.2 with tempqueue := queue })
  else (r.1 ++ [1000], r.2)

/-- `Collection::read_temperature_value`. -/
def readTemperatureValue (s : State) (tempNum : Nat) : List Nat × State :=
  (List.range tempNum).foldl readChannel ([], s)

/-- `Collection::read_pressure_value` for one point or more. -/
def readPressureValue (s : State) (pointNum : Nat) : List Nat × State :=
  let size := s.pressureList.length
  (s.pressureList.take (if pointNum < size then pointNum - 1 else size),
    { s with pressureList := if pointNum < size then s.pressureList.drop pointNum else [] })

/-! ## Runs -/

/-- A value that was computed, with the samples since the one before. -/
structure Computed where
  window : List Nat
  value : Nat

structure Account where
  state : State
  /-- all that `read_pressure_value` returned -/
  returned : List Nat := []
  /-- all that `read_temperature_value` computed -/
  computed : List Computed := []

inductive Op where
  | parsedata (orgdata : List UInt8)
  | readPressureValue (pointNum : Nat)
  | readTemperatureValue (tempNum : Nat)

/-- The queues whose values `read_temperature_value` computes. -/
def due (s : State) (tempNum : Nat) : List Temperature :=
  (s.tempqueue.take (min tempNum 4)).filter fun t => decide (10 < t.count)

def tempbuffSize : Nat := 1024

/-- `parsedata` writes inside of its queues. -/
def Inside (s : State) : Prop := ∀ t ∈ s.tempqueue.take 4, t.count < tempbuffSize

instance (s : State) : Decidable (Inside s) := inferInstanceAs (Decidable (∀ _ ∈ _, _))

namespace Account

def step (a : Account) : Op → Option Account
  | .parsedata orgdata =>
    if Inside a.state then some { a with state := parsedata a.state orgdata } else none
  | .readPressureValue pointNum =>
    let r := readPressureValue a.state pointNum
    some { a with state := r.2, returned := a.returned ++ r.1 }
  | .readTemperatureValue tempNum =>
    some { a with
      state := (readTemperatureValue a.state tempNum).2
      computed := a.computed ++
        (due a.state tempNum).map fun t => ⟨t.tempbuff, t.compute.lasttemp⟩ }

/-- The program at its start. -/
def init (revdata : Mem) : Account := { state := State.init revdata }

end Account

/-- The pressures of a reply. -/
def pressures (orgdata : List UInt8) : List Nat := [channelValue orgdata 8, channelValue orgdata 9]

/-- A value lies among the samples it was computed from. -/
def Computed.Between (c : Computed) : Prop :=
  (∃ a ∈ c.window, a ≤ c.value) ∧ ∃ b ∈ c.window, c.value ≤ b

/-- No pressure is lost or repeated, and every value that was computed lies among its samples. -/
structure Account.Good (a : Account) : Prop where
  pressure : a.returned ++ a.state.pressureList = a.state.parsed.flatMap pressures
  temperature : ∀ c ∈ a.computed, c.Between

/-! ## When it is so -/

/-- The largest sample. -/
def largest (l : List Nat) : Nat := l.foldr max 0

/-- The smallest sample. -/
def smallest (l : List Nat) : Nat := l.foldr min 65535

/-- The value computed before lies among the samples; or it is smaller, and the sum is not too
large for that; or it is larger, and the sum is large enough. -/
def Temperature.Fair (t : Temperature) : Prop :=
  (smallest t.tempbuff ≤ t.lasttemp ∧ t.lasttemp ≤ largest t.tempbuff) ∨
    (t.lasttemp < smallest t.tempbuff ∧ t.tempbuff.sum < t.lasttemp + largest t.tempbuff +
      (t.tempbuff.length - 2) * (largest t.tempbuff + 1)) ∨
    (largest t.tempbuff < t.lasttemp ∧
      t.lasttemp + (t.tempbuff.length - 1) * smallest t.tempbuff ≤ t.tempbuff.sum)

instance (t : Temperature) : Decidable t.Fair := inferInstanceAs (Decidable (_ ∨ _))

/-- A step that does no harm. -/
def Harmless (a : Account) : Op → Prop
  | .parsedata _ => Inside a.state
  | .readPressureValue pointNum => a.state.pressureList.length ≤ pointNum
  | .readTemperatureValue tempNum => ∀ t ∈ due a.state tempNum, t.Fair

instance (a : Account) : ∀ op, Decidable (Harmless a op)
  | .parsedata _ => inferInstanceAs (Decidable (Inside a.state))
  | .readPressureValue _ => inferInstanceAs (Decidable (_ ≤ _))
  | .readTemperatureValue _ => inferInstanceAs (Decidable (∀ _ ∈ _, _))

/-! ## The mean -/

variable {l : List Nat} {a b : Nat}

theorem le_largest (h : a ∈ l) : a ≤ largest l := by
  induction l with
  | nil => cases h
  | cons c l ih =>
    obtain rfl | h := List.mem_cons.mp h
    · exact Nat.le_max_left _ _
    · exact Nat.le_trans (ih h) (Nat.le_max_right _ _)

theorem smallest_le (h : a ∈ l) : smallest l ≤ a := by
  induction l with
  | nil => cases h
  | cons c l ih =>
    obtain rfl | h := List.mem_cons.mp h
    · exact Nat.min_le_left _ _
    · exact Nat.le_trans (Nat.min_le_right _ _) (ih h)

theorem largest_concat (l : List Nat) (a : Nat) : largest (l ++ [a]) = max (largest l) a := by
  induction l with
  | nil => exact Nat.max_comm _ _
  | cons c l ih =>
    show max c (largest (l ++ [a])) = max (max c (largest l)) a
    rw [ih, Nat.max_assoc]

theorem smallest_concat (l : List Nat) (a : Nat) : smallest (l ++ [a]) = min (smallest l) a := by
  induction l with
  | nil => exact Nat.min_comm _ _
  | cons c l ih =>
    show min c (smallest (l ++ [a])) = min (min c (smallest l)) a
    rw [ih, Nat.min_assoc]

theorem largest_mem (h : l ≠ []) : largest l ∈ l := by
  induction l with
  | nil => exact absurd rfl h
  | cons c l ih =>
    show max c (largest l) ∈ c :: l
    by_cases hl : l = []
    · subst hl
      exact List.mem_cons.mpr (.inl (Nat.max_zero c))
    · rcases Nat.le_total c (largest l) with hle | hle
      · rw [Nat.max_eq_right hle]
        exact List.mem_cons_of_mem _ (ih hl)
      · rw [Nat.max_eq_left hle]
        exact List.mem_cons_self

theorem smallest_mem (h : l ≠ []) (hl : ∀ a ∈ l, a ≤ 65535) : smallest l ∈ l := by
  induction l with
  | nil => exact absurd rfl h
  | cons c l ih =>
    show min c (smallest l) ∈ c :: l
    by_cases hnil : l = []
    · subst hnil
      exact List.mem_cons.mpr (.inl (Nat.min_eq_left (hl c List.mem_cons_self)))
    · rcases Nat.le_total c (smallest l) with hle | hle
      · rw [Nat.min_eq_left hle]
        exact List.mem_cons_self
      · rw [Nat.min_eq_right hle]
        exact List.mem_cons_of_mem _ (ih hnil fun a ha => hl a (List.mem_cons_of_mem _ ha))

/-- One sample, and the lower bound for the others. -/
theorem add_mul_le_sum (ha : a ∈ l) (h : ∀ c ∈ l, b ≤ c) : a + (l.length - 1) * b ≤ l.sum := by
  have hperm := List.perm_cons_erase ha
  have hrest : (l.erase a).length * b ≤ (l.erase a).sum :=
    List.card_nsmul_le_sum _ b fun c hc => h c (List.mem_of_mem_erase hc)
  rw [hperm.sum_nat, List.sum_cons, ← List.length_erase_of_mem ha]
  omega

/-- One sample, and the upper bound for the others. -/
theorem sum_le_add_mul (ha : a ∈ l) (h : ∀ c ∈ l, c ≤ b) : l.sum ≤ a + (l.length - 1) * b := by
  have hperm := List.perm_cons_erase ha
  have hrest : (l.erase a).sum ≤ (l.erase a).length * b :=
    List.sum_le_card_nsmul _ b fun c hc => h c (List.mem_of_mem_erase hc)
  rw [hperm.sum_nat, List.sum_cons, ← List.length_erase_of_mem ha]
  omega

/-! ## Queues -/

/-- A queue says what its samples are. -/
structure Temperature.Tracks (t : Temperature) : Prop where
  count : t.count = t.tempbuff.length
  sum : t.sum = t.tempbuff.sum
  maxtemp : t.maxtemp = max t.lasttemp (largest t.tempbuff)
  mintemp : t.mintemp = min t.lasttemp (smallest t.tempbuff)
  lasttemp : t.lasttemp ≤ 65535
  samples : ∀ a ∈ t.tempbuff, a ≤ 65535
  size : t.tempbuff.length ≤ tempbuffSize

variable {t : Temperature}

theorem Temperature.Tracks.push (h : t.Tracks) (hlt : t.count < tempbuffSize) (ha : a ≤ 65535) :
    (t.push a).Tracks where
  count := by
    have hsize : tempbuffSize = 1024 := rfl
    have hcount := h.count
    simp only [Temperature.push, List.length_append, List.length_singleton]
    omega
  sum := by
    have hsum : t.tempbuff.sum ≤ t.tempbuff.length * 65535 := List.sum_le_card_nsmul _ _ h.samples
    have hsize : tempbuffSize = 1024 := rfl
    have hle := h.size
    simp only [Temperature.push, h.sum, List.sum_append, List.sum_singleton]
    have hmul := Nat.mul_le_mul_right 65535 hle
    omega
  maxtemp := by
    simp only [Temperature.push, h.maxtemp, largest_concat, Nat.max_assoc]
  mintemp := by
    simp only [Temperature.push, h.mintemp, smallest_concat, Nat.min_assoc]
  lasttemp := h.lasttemp
  samples := by
    intro b hb
    obtain hb | hb := List.mem_append.mp hb
    · exact h.samples b hb
    · rw [List.mem_singleton.mp hb]
      exact ha
  size := by
    have hcount := h.count
    simp only [Temperature.push, List.length_append, List.length_singleton]
    omega

/-- A quotient between two bounds. -/
theorem div_between {d k lo hi : Nat} (hk : 0 < k) (hlow : k * lo ≤ d) (hhigh : d < k * hi + k)
    (hhi : hi ≤ 65535) : lo ≤ d / k % 65536 ∧ d / k % 65536 ≤ hi := by
  have hle : lo ≤ d / k := (Nat.le_div_iff_mul_le hk).mpr (by rwa [Nat.mul_comm])
  have hlt : d / k < hi + 1 := (Nat.div_lt_iff_lt_mul hk).mpr (by rwa [Nat.mul_comm, Nat.mul_succ])
  rw [Nat.mod_eq_of_lt (by omega)]
  omega

/-- The mean of a fair queue lies between its smallest and its largest sample. -/
theorem Temperature.Tracks.compute_between (h : t.Tracks) (hf : t.Fair) (hcount : 10 < t.count) :
    smallest t.tempbuff ≤ t.compute.lasttemp ∧ t.compute.lasttemp ≤ largest t.tempbuff := by
  have hlen := h.count
  have hne : t.tempbuff ≠ [] := by
    intro hnil
    rw [hnil] at hlen
    exact absurd hcount (by rw [hlen]; decide)
  have hlow := add_mul_le_sum (largest_mem hne) fun c hc => smallest_le hc
  have hhigh := sum_le_add_mul (smallest_mem hne h.samples) fun c hc => le_largest hc
  have hlargest := h.samples _ (largest_mem hne)
  have hsum : t.tempbuff.sum < 4294967296 := by
    have hall : t.tempbuff.sum ≤ t.tempbuff.length * 65535 := List.sum_le_card_nsmul _ _ h.samples
    have hsize : tempbuffSize = 1024 := rfl
    have hmul := Nat.mul_le_mul_right 65535 h.size
    omega
  obtain ⟨k, hk⟩ : ∃ k, t.tempbuff.length = k + 2 := ⟨t.tempbuff.length - 2, by omega⟩
  have hvalue : t.compute.lasttemp = (t.tempbuff.sum + 4294967296 -
      (max t.lasttemp (largest t.tempbuff) + min t.lasttemp (smallest t.tempbuff))) %
        4294967296 / k % 65536 := by
    rw [compute, if_pos hcount, h.sum, h.maxtemp, h.mintemp, hlen, hk]
    rfl
  have hlohi : smallest t.tempbuff ≤ largest t.tempbuff := smallest_le (largest_mem hne)
  rw [hvalue]
  unfold Temperature.Fair at hf
  generalize t.tempbuff.sum = sum at *
  generalize smallest t.tempbuff = lo at *
  generalize largest t.tempbuff = hi at *
  generalize t.lasttemp = last at *
  simp only [hk, Nat.add_sub_cancel, show k + 2 - 1 = k + 1 from rfl, Nat.succ_mul, Nat.mul_succ]
    at hlow hhigh hf
  -- what is left of the sum lies between `k` times the bounds
  have hrest : max last hi + min last lo ≤ sum ∧ k * lo ≤ sum - (max last hi + min last lo) ∧
      sum - (max last hi + min last lo) < k * hi + k := by
    omega
  obtain ⟨hle, hleft, hright⟩ := hrest
  have hdiff : (sum + 4294967296 - (max last hi + min last lo)) % 4294967296 =
      sum - (max last hi + min last lo) := by
    omega
  rw [hdiff]
  exact div_between (by omega) hleft hright hlargest

theorem Temperature.Tracks.computed_between (h : t.Tracks) (hf : t.Fair) (hcount : 10 < t.count) :
    Computed.Between ⟨t.tempbuff, t.compute.lasttemp⟩ := by
  have hne : t.tempbuff ≠ [] := by
    intro hnil
    rw [h.count, hnil] at hcount
    exact absurd hcount (by decide)
  obtain ⟨hlow, hhigh⟩ := h.compute_between hf hcount
  exact ⟨⟨_, smallest_mem hne h.samples, hlow⟩, ⟨_, largest_mem hne, hhigh⟩⟩

theorem Temperature.Tracks.compute (h : t.Tracks) : t.compute.Tracks := by
  have hlast : (t.sum + 4294967296 - (t.maxtemp + t.mintemp)) % 4294967296 / (t.count - 2) % 65536 ≤
      65535 := Nat.le_of_lt_succ (Nat.mod_lt _ (by decide))
  unfold Temperature.compute
  split
  · refine ⟨rfl, rfl, (Nat.max_zero _).symm, (Nat.min_eq_left hlast).symm, hlast, ?_, Nat.zero_le _⟩
    intro a ha
    cases ha
  · exact h

/-! ## What the operations do -/

variable {s : State}

theorem channelValue_le (orgdata : List UInt8) (i : Nat) : channelValue orgdata i ≤ 65535 := by
  unfold channelValue
  omega

theorem pressureList_parseChannel (orgdata : List UInt8) (s : State) (i : Nat) :
    (parseChannel orgdata s i).pressureList =
      s.pressureList ++ if i = 8 ∨ i = 9 then [channelValue orgdata i] else [] := by
  by_cases hfew : i < 4
  · have hother : ¬(i = 8 ∨ i = 9) := by omega
    simp [parseChannel, hfew, hother]
  · simp only [parseChannel, if_neg hfew]
    split
    · rfl
    · rw [List.append_nil]
      split <;> rfl

theorem tempqueue_parseChannel (orgdata : List UInt8) (s : State) (i : Nat) :
    (parseChannel orgdata s i).tempqueue =
      if 4 ≤ i ∧ i ≤ 7 then s.tempqueue.modify (i - 4) (·.push (channelValue orgdata i))
      else s.tempqueue := by
  by_cases hfew : i < 4
  · have hother : ¬(4 ≤ i ∧ i ≤ 7) := by omega
    simp [parseChannel, hfew, hother]
  · simp only [parseChannel, if_neg hfew]
    split
    · next hvoltage =>
      have hother : ¬(4 ≤ i ∧ i ≤ 7) := by omega
      rw [if_neg hother]
    · split <;> rfl

/-- The channels 8 and 9 go into the list of pressures. -/
theorem pressureList_parsedata (s : State) (orgdata : List UInt8) :
    (parsedata s orgdata).pressureList = s.pressureList ++ pressures orgdata := by
  simp [parsedata, ioModuleChannelNum, List.range_succ, pressureList_parseChannel, pressures]

/-- The channels 4 to 7 go into the first four queues. -/
theorem tempqueue_parsedata (s : State) (orgdata : List UInt8) :
    (parsedata s orgdata).tempqueue =
      (((s.tempqueue.modify 0 (·.push (channelValue orgdata 4))).modify 1
        (·.push (channelValue orgdata 5))).modify 2
        (·.push (channelValue orgdata 6))).modify 3 (·.push (channelValue orgdata 7)) := by
  simp [parsedata, ioModuleChannelNum, List.range_succ, tempqueue_parseChannel]

/-- Every queue says what its samples are. -/
def AllTrack (s : State) : Prop := ∀ t ∈ s.tempqueue, t.Tracks

theorem tracks_modify {queue : List Temperature} {f : Temperature → Temperature} {i : Nat}
    (h : ∀ t ∈ queue, t.Tracks) (hf : ∀ t, queue[i]? = some t → (f t).Tracks) :
    ∀ t ∈ queue.modify i f, t.Tracks := by
  intro t ht
  obtain ⟨j, hj⟩ := List.mem_iff_getElem?.mp ht
  rw [List.getElem?_modify] at hj
  split at hj
  · next heq =>
    obtain ⟨t', ht', rfl⟩ := Option.map_eq_some_iff.mp hj
    exact hf t' (heq ▸ ht')
  · refine h t (List.mem_of_getElem? (i := j) ?_)
    simpa using hj

theorem AllTrack.parsedata (h : AllTrack s) (hin : Inside s) (orgdata : List UInt8) :
    AllTrack (parsedata s orgdata) := by
  have hpush : ∀ i < 4, ∀ t value, s.tempqueue[i]? = some t → value ≤ 65535 →
      (t.push value).Tracks := by
    intro i hi t value ht hvalue
    refine (h t (List.mem_of_getElem? ht)).push (hin t ?_) hvalue
    apply List.mem_of_getElem? (i := i)
    rw [List.getElem?_take_of_lt hi, ht]
  rw [AllTrack, tempqueue_parsedata]
  refine tracks_modify (tracks_modify (tracks_modify (tracks_modify h ?_) ?_) ?_) ?_
  · intro t ht
    exact hpush 0 (by decide) t _ ht (channelValue_le _ _)
  · intro t ht
    exact hpush 1 (by decide) t _ (by simpa [List.getElem?_modify] using ht) (channelValue_le _ _)
  · intro t ht
    exact hpush 2 (by decide) t _ (by simpa [List.getElem?_modify] using ht) (channelValue_le _ _)
  · intro t ht
    exact hpush 3 (by decide) t _ (by simpa [List.getElem?_modify] using ht) (channelValue_le _ _)

/-- The temperatures leave the pressures and the record of the calls alone, and compute some of the
queues. -/
theorem readTemperatureValue_frame (s : State) (tempNum : Nat) :
    (readTemperatureValue s tempNum).2.pressureList = s.pressureList ∧
      (readTemperatureValue s tempNum).2.parsed = s.parsed := by
  constructor
  · apply foldl_frame (fun r : List Nat × State => r.2.pressureList)
    intro r i
    unfold readChannel
    split <;> rfl
  · apply foldl_frame (fun r : List Nat × State => r.2.parsed)
    intro r i
    unfold readChannel
    split <;> rfl

theorem AllTrack.readTemperatureValue (h : AllTrack s) (tempNum : Nat) :
    AllTrack (readTemperatureValue s tempNum).2 := by
  unfold Collection.readTemperatureValue
  generalize List.range tempNum = channels
  suffices hfold : ∀ r : List Nat × State, AllTrack r.2 → AllTrack (channels.foldl readChannel r).2 from
    hfold ([], s) h
  induction channels with
  | nil => exact fun r hr => hr
  | cons i channels ih =>
    intro r hr
    refine ih _ ?_
    unfold readChannel
    split
    · refine tracks_modify hr ?_
      intro t ht
      exact (hr t (List.mem_of_getElem? ht)).compute
    · exact hr

/-- A list that is not longer than asked for is returned as a whole. -/
theorem readPressureValue_of_le {pointNum : Nat} (h : s.pressureList.length ≤ pointNum) :
    (readPressureValue s pointNum).1 ++ (readPressureValue s pointNum).2.pressureList =
      s.pressureList := by
  simp [readPressureValue, Nat.not_lt_of_le h]

/-! ## Runs -/

structure Account.Inv (a : Account) : Prop where
  good : a.Good
  tracks : AllTrack a.state

variable {acc : Account}

theorem inv_init (revdata : Mem) : (Account.init revdata).Inv where
  good := ⟨rfl, List.forall_mem_nil _⟩
  tracks := by
    intro t ht
    rw [List.eq_of_mem_replicate ht]
    exact ⟨rfl, rfl, rfl, rfl, Nat.zero_le _, List.forall_mem_nil _, Nat.zero_le _⟩

theorem step_inv (h : acc.Inv) {op : Op} (hop : Harmless acc op) :
    ∃ acc', acc.step op = some acc' ∧ acc'.Inv := by
  cases op with
  | parsedata orgdata =>
    refine ⟨_, if_pos hop, ⟨?_, h.good.temperature⟩, h.tracks.parsedata hop orgdata⟩
    show acc.returned ++ (parsedata acc.state orgdata).pressureList = _
    rw [pressureList_parsedata, ← List.append_assoc, h.good.pressure]
    show _ = (parsedata acc.state orgdata).parsed.flatMap pressures
    rw [parsed_parsedata, List.flatMap_append]
    simp
  | readPressureValue pointNum =>
    refine ⟨_, rfl, ⟨?_, h.good.temperature⟩, h.tracks⟩
    show acc.returned ++ (readPressureValue acc.state pointNum).1 ++
      (readPressureValue acc.state pointNum).2.pressureList = _
    rw [List.append_assoc, readPressureValue_of_le hop, h.good.pressure]
    rfl
  | readTemperatureValue tempNum =>
    obtain ⟨hpressure, hparsed⟩ := readTemperatureValue_frame acc.state tempNum
    refine ⟨_, rfl, ⟨?_, ?_⟩, h.tracks.readTemperatureValue tempNum⟩
    · show acc.returned ++ (readTemperatureValue acc.state tempNum).2.pressureList =
        (readTemperatureValue acc.state tempNum).2.parsed.flatMap pressures
      rw [hpressure, hparsed]
      exact h.good.pressure
    · intro c hc
      obtain hc | hc := List.mem_append.mp hc
      · exact h.good.temperature c hc
      · obtain ⟨t, ht, rfl⟩ := List.mem_map.mp hc
        obtain ⟨hmem, hcount⟩ := List.mem_filter.mp ht
        exact (h.tracks t (List.mem_of_mem_take hmem)).computed_between (hop t ht)
          (of_decide_eq_true hcount)

/-- **The samples.** Along a run of harmless steps nothing is written outside of a queue, no pressure
is lost, and every temperature that is computed lies among its samples. -/
theorem run_good (revdata : Mem) (ops : List Op)
    (h : Meets Account.step Harmless (Account.init revdata) ops) :
    ∃ acc, run Account.step (Account.init revdata) ops = some acc ∧ acc.Good := by
  obtain ⟨acc, hrun, hinv⟩ := run_of_meets (fun _ _ hs hop => step_inv hs hop) (inv_init revdata) h
  exact ⟨acc, hrun, hinv.good⟩

theorem run_good_cold :
    Meets Account.step Harmless (Account.init Mem.zero)
        (List.replicate 11 (.parsedata (List.replicate 24 0)) ++
          [.readTemperatureValue 4, .readPressureValue 100]) ∧
      ∃ acc, run Account.step (Account.init Mem.zero)
        (List.replicate 11 (.parsedata (List.replicate 24 0)) ++
          [.readTemperatureValue 4, .readPressureValue 100]) = some acc ∧ acc.Good := by
  have hmeets : Meets Account.step Harmless (Account.init Mem.zero)
      (List.replicate 11 (.parsedata (List.replicate 24 0)) ++
        [.readTemperatureValue 4, .readPressureValue 100]) := by
    decide +kernel
  exact ⟨hmeets, run_good _ _ hmeets⟩

/-- Of 102 pressures the first 100 are asked for: 99 are returned and 2 are left. -/
theorem not_good_102_pressures :
    ¬ ∀ (revdata : Mem) (ops : List Op) (acc : Account),
      run Account.step (Account.init revdata) ops = some acc → acc.Good := by
  intro h
  have hlen : (run Account.step (Account.init Mem.zero)
      (List.replicate 51 (.parsedata (List.replicate 24 0)) ++ [.readPressureValue 100])).map
        (fun acc => (acc.returned.length, acc.state.pressureList.length,
          (acc.state.parsed.flatMap pressures).length)) = some (99, 2, 102) := by
    decide +kernel
  obtain ⟨acc, hrun, hacc⟩ := Option.map_eq_some_iff.mp hlen
  have hpressure := congrArg List.length (h _ _ acc hrun).pressure
  rw [List.length_append] at hpressure
  simp only [Prod.mk.injEq] at hacc
  omega

/-- A read of one pressure or more loses none exactly when there are not more than asked for. -/
theorem readPressureValue_eq_iff {pointNum : Nat} (h : 0 < pointNum) :
    (readPressureValue s pointNum).1 ++ (readPressureValue s pointNum).2.pressureList =
      s.pressureList ↔ s.pressureList.length ≤ pointNum := by
  refine ⟨?_, readPressureValue_of_le⟩
  intro heq
  by_contra hlt
  have hlen := congrArg List.length heq
  simp only [readPressureValue, if_pos (Nat.lt_of_not_le hlt), List.length_append, List.length_take,
    List.length_drop] at hlen
  omega

end ProgrammingPath.Mes.Collection
