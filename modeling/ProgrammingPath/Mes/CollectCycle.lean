import Mathlib.Data.List.Chain
import ProgrammingPath.Lib.Run

/-!
# Counting moulds (`Server/CollectCycle.cpp`, `AppConfig/MESDevCfg.h`)

The thread of `CollectCycle` waits for one collection point after the other to reach its level, in
the order of `portCollect`, and then counts a mould. While it does so it notes when the cycles of
`CycleCollect` begin and end. Both arrays have 20 bytes and end with a zero, but neither loop looks
at the size: a step is `none` when it reads or writes behind an array. An unknown point ends the
scan as the zero does, and the mould is counted all the same.

A step is one turn of a loop. What the environment gives to it is the value that is polled (nothing,
when the reading fails) and the time. The samples that go with a mould are read from `Collection`
and are left out here. An interrupted thread ends between two passes.
-/

namespace ProgrammingPath.Mes.CollectCycle

open ProgrammingPath.Lib

/-! ## Configuration -/

/-- A `QDateTime` of the clock, in milliseconds; `none` is the null one. -/
abbrev Moment := Option Int

/-- `msecsTo`, `0` when one of the two is null. -/
def msecsTo : Moment → Moment → Int
  | some a, some b => b - a
  | _, _ => 0

/-- `PORT_COLLECT_t`. -/
structure PortCollect where
  index : UInt8
  udwPortNo : UInt8
  udwIoLogic : UInt16
  deriving DecidableEq, Repr

def logicHigh : UInt16 := 1

def logicLow : UInt16 := 0

/-- `g_tPortCollectConfig`. -/
def portCollectConfig : List PortCollect :=
  [⟨1, 0, logicHigh⟩, ⟨2, 0, logicLow⟩, ⟨3, 1, logicHigh⟩, ⟨4, 1, logicLow⟩, ⟨5, 2, logicHigh⟩,
    ⟨6, 2, logicLow⟩, ⟨7, 3, logicHigh⟩, ⟨8, 3, logicLow⟩, ⟨9, 3, logicHigh⟩, ⟨10, 3, logicLow⟩]

/-- The loop that looks for the port of a point. -/
def findPort (point : UInt8) : Option PortCollect := portCollectConfig.find? (·.index == point)

/-- What the thread reads of `MESDevCfg`, and the type of the machine from `sys_func_cfg`. -/
structure DevCfg where
  portCollect : Vector UInt8 20
  cycleCollect : Vector UInt8 20
  machineType : UInt8

/-- The `switch` on the type of the machine: the times are computed in the default case. -/
def DevCfg.hasTimes (cfg : DevCfg) : Bool := !([1, 3, 4] : List UInt8).contains cfg.machineType

/-! ## State -/

/-- `CycleData`. -/
structure CycleData where
  fillTimeLong : UInt32
  cycleTimeLong : UInt32
  moldstartTime : Moment := none
  moldendTime : Moment := none

/-- The arguments of `OnAddModeCount`. -/
structure Mould where
  endCycle : Moment
  machineCycle : UInt32
  fillTime : UInt32
  cycleTime : UInt32
  startCycle : Moment

/-- What the thread does that can be seen: a point was polled at its level, or a mould is counted. -/
inductive Entry where
  | reached (point : UInt8) (port : UInt8) (level : UInt16)
  | addModeCount (mould : Mould)

/-- Where the thread is. -/
inductive Pc where
  /-- at the top of the `while` -/
  | top
  /-- at the condition of the scan -/
  | scan
  /-- in the loop that polls a port, with `ucPortStatus` -/
  | wait (port : PortCollect) (ucPortStatus : UInt16)
  /-- behind the scan -/
  | count

/-- `sn` and `CycleCollectStartTime`. -/
structure Cycles where
  sn : Vector Nat 20 := Vector.replicate 20 0
  startTime : Vector Moment 20 := Vector.replicate 20 none

structure State where
  modeCount : UInt16 := 0
  portCollectStartTime : Vector Moment 20 := Vector.replicate 20 none
  cycles : Cycles := {}
  formingCycleStartTime : Moment := none
  prodctdata : CycleData
  scanIndex : Nat := 0
  pc : Pc := .top
  log : List Entry := []

/-- What the environment gives to a step. -/
structure Input where
  polled : Option UInt16
  now : Int

/-! ## The steps -/

/-- A write to an array. -/
def write {α : Type} {n : Nat} (v : Vector α n) (i : Nat) (a : α) : Option (Vector α n) :=
  if h : i < n then some (v.set i a h) else none

/-- The body of the loop over the cycles: the point begins the cycle, or it ends it. -/
def Cycles.collect (cfg : DevCfg) (point : UInt8) (now : Moment) (k : Nat) (c : Cycles) :
    Option Cycles := do
  let sn ← c.sn[k]?
  if sn = 0 then
    let first ← cfg.cycleCollect[k * 2]?
    if first = point then
      return { sn := ← write c.sn k 1, startTime := ← write c.startTime (k * 2) now }
    else return c
  else if sn = 1 then
    let last ← cfg.cycleCollect[k * 2 + 1]?
    if last = point then
      return { sn := ← write c.sn k 2, startTime := ← write c.startTime (k * 2 + 1) now }
    else return c
  else return c

/-- The loop over the cycles from the `k`-th on, with `n` turns left. -/
def Cycles.loop (cfg : DevCfg) (point : UInt8) (now : Moment) :
    (n k : Nat) → Cycles → Option Cycles
  | 0, _, c => some c
  | n + 1, k, c => do
    let first ← cfg.cycleCollect[k * 2]?
    if first = 0 then return c
    let c ← c.collect cfg point now k
    c.loop cfg point now n (k + 1)

/-- The point that was waited for has reached its level. -/
def State.reach (cfg : DevCfg) (s : State) (port : PortCollect) (level : UInt16) (now : Moment) :
    Option State := do
  let point ← cfg.portCollect[s.scanIndex]?
  let times ← write s.portCollectStartTime s.scanIndex now
  let forming := if s.modeCount = 0 ∧ s.scanIndex = 0 then now else s.formingCycleStartTime
  let cycles ← s.cycles.loop cfg point now 20 0
  return { s with
    portCollectStartTime := times
    formingCycleStartTime := forming
    cycles := cycles
    scanIndex := s.scanIndex + 1
    pc := .scan
    log := s.log ++ [.reached point port.udwPortNo level] }

/-- `prodctdata` at the end of a pass. -/
def State.data (cfg : DevCfg) (s : State) : CycleData :=
  let t := s.cycles.startTime
  if cfg.hasTimes then
    { fillTimeLong := UInt32.ofInt (msecsTo t[2] t[3])
      cycleTimeLong := UInt32.ofInt (msecsTo s.formingCycleStartTime t[4])
      moldstartTime := s.formingCycleStartTime
      moldendTime := t[4] }
  else s.prodctdata

/-- The mould that is counted at the end of a pass. -/
def State.mould (cfg : DevCfg) (s : State) : Mould :=
  let t := s.cycles.startTime
  { endCycle := (s.data cfg).moldendTime
    machineCycle := if cfg.hasTimes then UInt32.ofInt (msecsTo t[0] t[1]) else 0
    fillTime := (s.data cfg).fillTimeLong
    cycleTime := (s.data cfg).cycleTimeLong
    startCycle := (s.data cfg).moldstartTime }

/-- What comes behind the scan. -/
def State.count (cfg : DevCfg) (s : State) : State :=
  { s with
    modeCount := s.modeCount + 1
    prodctdata := s.data cfg
    formingCycleStartTime :=
      if cfg.hasTimes then s.cycles.startTime[4] else s.formingCycleStartTime
    pc := .top
    log := s.log ++ [.addModeCount (s.mould cfg)] }

/-- A step of `CollectCycle::run`. -/
def step (cfg : DevCfg) (s : State) (e : Input) : Option State :=
  match s.pc with
  | .top =>
    if cfg.portCollect[0] = 0 then some s
    else some { s with
      scanIndex := 0
      cycles := { s.cycles with sn := Vector.replicate 20 0 }
      pc := .scan }
  | .scan => do
    let point ← cfg.portCollect[s.scanIndex]?
    if point = 0 then return { s with pc := .count }
    match findPort point with
    | none => return { s with pc := .count }
    | some port => return { s with pc := .wait port 0 }
  | .wait port ucPortStatus =>
    let level := e.polled.getD ucPortStatus
    if level = port.udwIoLogic then s.reach cfg port level (some e.now)
    else some { s with pc := .wait port level }
  | .count => some (s.count cfg)

/-- The thread when the program starts; the two lengths of `CycleData` are not set to anything. -/
def init (fillTimeLong cycleTimeLong : UInt32) : State where
  prodctdata := { fillTimeLong, cycleTimeLong }

/-! ## What counting should do -/

/-- The points up to the zero. -/
def DevCfg.configured (cfg : DevCfg) : List UInt8 := cfg.portCollect.toList.takeWhile (· ≠ 0)

/-- A point that was reached, or `none` for a mould. -/
def Entry.point? : Entry → Option UInt8
  | .reached point _ _ => some point
  | .addModeCount _ => none

def Entry.mould? : Entry → Option Mould
  | .reached _ _ _ => none
  | .addModeCount mould => some mould

def State.moulds (s : State) : List Mould := s.log.filterMap Entry.mould?

/-- What a complete pass does: every point in its order, and one mould. -/
def DevCfg.pass (cfg : DevCfg) : List (Option UInt8) := cfg.configured.map some ++ [none]

structure Good (cfg : DevCfg) (s : State) : Prop where
  /-- some complete passes, and the beginning of another one -/
  counted : ∃ n k, s.log.map Entry.point? =
    (List.replicate n cfg.pass).flatten ++ (cfg.configured.take k).map some
  /-- a point was reached at the level of its port -/
  level : ∀ point port level, .reached point port level ∈ s.log →
    ⟨point, port, level⟩ ∈ portCollectConfig
  /-- a mould begins when the one before it ends -/
  chained : s.moulds.IsChain fun a b => b.startCycle = a.endCycle

/-- The scan stops at a zero, the cycles stop at a zero, and every point is known. -/
structure DevCfg.Fits (cfg : DevCfg) : Prop where
  zero : cfg.configured.length < 20
  known : ∀ point ∈ cfg.configured, (findPort point).isSome
  cycles : ∃ k < 10, cfg.cycleCollect[k * 2]? = some 0

/-- When the first point of a pass is waited for, `ModeCount` has not come back to zero. -/
def Unwrapped (cfg : DevCfg) (s : State) (_ : Input) : Prop :=
  (∃ port level, s.pc = .wait port level) → s.scanIndex = 0 → s.modeCount = 0 → cfg.hasTimes →
    s.moulds = []

/-- Moulds are counted as they should be in every run, as long as `ModeCount` does not come back to
zero. -/
def Counts (cfg : DevCfg) (fillTimeLong cycleTimeLong : UInt32) : Prop :=
  ∀ inputs, Meets (step cfg) (Unwrapped cfg) (init fillTimeLong cycleTimeLong) inputs →
    ∃ t, run (step cfg) (init fillTimeLong cycleTimeLong) inputs = some t ∧ Good cfg t

/-! ## The arrays -/

variable {cfg : DevCfg} {s s' : State} {i : Nat}

/-- Where `takeWhile` stops there is an entry that fails the test. -/
theorem not_of_length_takeWhile {p : UInt8 → Bool} {l : List UInt8} {b : UInt8}
    (h : l[(l.takeWhile p).length]? = some b) : p b = false := by
  induction l with
  | nil => cases h
  | cons a l ih =>
    by_cases ha : p a
    · rw [List.takeWhile_cons_of_pos ha] at h
      exact ih h
    · rw [List.takeWhile_cons_of_neg ha] at h
      cases h
      simpa using ha

theorem portCollect_of_lt (h : i < cfg.configured.length) :
    cfg.portCollect[i]? = cfg.configured[i]? := by
  obtain ⟨rest, hrest⟩ : cfg.configured <+: cfg.portCollect.toList := List.takeWhile_prefix _
  rw [← Vector.getElem?_toList, ← hrest, List.getElem?_append_left h]

theorem ne_zero_of_mem_configured {point : UInt8} (h : point ∈ cfg.configured) : point ≠ 0 := by
  have hall := List.all_eq_true.mp List.all_takeWhile point h
  simpa using hall

theorem length_configured_le (cfg : DevCfg) : cfg.configured.length ≤ 20 := by
  have hle : cfg.configured.length ≤ cfg.portCollect.toList.length :=
    (List.takeWhile_sublist _).length_le
  rwa [Vector.length_toList] at hle

/-- Behind the configured points there is a zero, or the end of the array. -/
theorem portCollect_length (h : cfg.configured.length < 20) :
    cfg.portCollect[cfg.configured.length]? = some 0 := by
  have hb : cfg.portCollect[cfg.configured.length]? = some cfg.portCollect[cfg.configured.length] :=
    Vector.getElem?_eq_getElem h
  rw [hb]
  rw [← Vector.getElem?_toList] at hb
  simpa using not_of_length_takeWhile hb

theorem write_isSome {α : Type} {n : Nat} (v : Vector α n) (a : α) (h : i < n) :
    ∃ v', write v i a = some v' := ⟨_, dif_pos h⟩

theorem getElem?_isSome {α : Type} {n : Nat} (v : Vector α n) (h : i < n) :
    ∃ a, v[i]? = some a := ⟨_, Vector.getElem?_eq_getElem h⟩

theorem collect_isSome (cfg : DevCfg) (point : UInt8) (now : Moment) {k : Nat} (hk : k < 10)
    (c : Cycles) : ∃ c', c.collect cfg point now k = some c' := by
  obtain ⟨sn, hsn⟩ := getElem?_isSome c.sn (i := k) (by omega)
  obtain ⟨first, hfirst⟩ := getElem?_isSome cfg.cycleCollect (i := k * 2) (by omega)
  obtain ⟨last, hlast⟩ := getElem?_isSome cfg.cycleCollect (i := k * 2 + 1) (by omega)
  obtain ⟨sn1, hsn1⟩ := write_isSome c.sn (i := k) 1 (by omega)
  obtain ⟨sn2, hsn2⟩ := write_isSome c.sn (i := k) 2 (by omega)
  obtain ⟨t1, ht1⟩ := write_isSome c.startTime (i := k * 2) now (by omega)
  obtain ⟨t2, ht2⟩ := write_isSome c.startTime (i := k * 2 + 1) now (by omega)
  simp only [Cycles.collect, hsn, hfirst, hlast, hsn1, hsn2, ht1, ht2, Option.bind_eq_bind,
    Option.bind_some, Option.pure_def]
  split
  · split <;> exact ⟨_, rfl⟩
  · split
    · split <;> exact ⟨_, rfl⟩
    · exact ⟨_, rfl⟩

/-- The loop over the cycles stays in its arrays if there is a zero to stop at. -/
theorem loop_isSome (point : UInt8) (now : Moment) {j : Nat} (hj : j < 10)
    (hzero : cfg.cycleCollect[j * 2]? = some 0) {n k : Nat} (hk : k ≤ j) (c : Cycles) :
    ∃ c', c.loop cfg point now n k = some c' := by
  induction n generalizing k c with
  | zero => exact ⟨c, rfl⟩
  | succ n ih =>
    obtain ⟨first, hfirst⟩ := getElem?_isSome cfg.cycleCollect (i := k * 2) (by omega)
    simp only [Cycles.loop, hfirst, Option.bind_eq_bind, Option.bind_some]
    split
    · exact ⟨c, rfl⟩
    · next hne =>
      have hlt : k < j := by
        refine Nat.lt_of_le_of_ne hk ?_
        rintro rfl
        rw [hzero] at hfirst
        cases hfirst
        exact hne rfl
      obtain ⟨c', hc'⟩ := collect_isSome cfg point now (k := k) (by omega) c
      rw [hc', Option.bind_some]
      exact ih hlt c'

/-- Without a zero it reads behind `CycleCollect`. -/
theorem loop_eq_none (point : UInt8) (now : Moment)
    (hne : ∀ k < 10, cfg.cycleCollect[k * 2]? ≠ some 0) {n k : Nat} (hn : n + k = 20) (hk : k ≤ 10)
    (c : Cycles) : c.loop cfg point now n k = none := by
  induction n generalizing k c with
  | zero => omega
  | succ n ih =>
    obtain hlt | rfl := Nat.lt_or_eq_of_le hk
    · obtain ⟨first, hfirst⟩ := getElem?_isSome cfg.cycleCollect (i := k * 2) (by omega)
      obtain ⟨c', hc'⟩ := collect_isSome cfg point now hlt c
      have hfirst0 : first ≠ 0 := by
        rintro rfl
        exact hne k hlt hfirst
      simp only [Cycles.loop, hfirst, hc', Option.bind_eq_bind, Option.bind_some, if_neg hfirst0]
      exact ih (by omega) (by omega) c'
    · rw [Cycles.loop, Vector.getElem?_eq_none (by omega)]
      rfl

/-! ## The invariant -/

/-- How many points were reached in the present pass. -/
def State.done (s : State) : Nat :=
  match s.pc with
  | .top => 0
  | _ => s.scanIndex

/-- The thread is where the scan index says. -/
def State.Placed (cfg : DevCfg) (s : State) : Prop :=
  match s.pc with
  | .top => True
  | .scan => s.scanIndex ≤ cfg.configured.length
  | .wait port _ => cfg.configured[s.scanIndex]? = some port.index ∧ port ∈ portCollectConfig
  | .count => s.scanIndex = cfg.configured.length

structure Inv (cfg : DevCfg) (s : State) : Prop where
  placed : s.Placed cfg
  counted : s.log.map Entry.point? = (List.replicate s.moulds.length cfg.pass).flatten ++
    (cfg.configured.take s.done).map some
  level : ∀ point port level, .reached point port level ∈ s.log →
    ⟨point, port, level⟩ ∈ portCollectConfig
  chained : s.moulds.IsChain fun a b => b.startCycle = a.endCycle
  /-- the next mould begins when the last one ends -/
  forming : cfg.hasTimes → ∀ m, s.moulds.getLast? = some m → s.formingCycleStartTime = m.endCycle
  /-- without times nothing is ever set -/
  still : cfg.hasTimes = false → s.prodctdata.moldstartTime = none ∧
    s.prodctdata.moldendTime = none ∧ ∀ m ∈ s.moulds, m.endCycle = none

theorem Inv.good (h : Inv cfg s) : Good cfg s := ⟨⟨_, _, h.counted⟩, h.level, h.chained⟩

theorem inv_init (cfg : DevCfg) (fillTimeLong cycleTimeLong : UInt32) :
    Inv cfg (init fillTimeLong cycleTimeLong) where
  placed := trivial
  counted := by simp [init, State.moulds, State.done]
  level := by simp [init]
  chained := by simp [init, State.moulds]
  forming := by simp [init, State.moulds]
  still := by simp [init, State.moulds]

/-- A step that reaches no point and counts no mould. -/
theorem Inv.frame (h : Inv cfg s) (hlog : s'.log = s.log) (hdone : s'.done = s.done)
    (hforming : s'.formingCycleStartTime = s.formingCycleStartTime)
    (hdata : s'.prodctdata = s.prodctdata) (hplaced : s'.Placed cfg) : Inv cfg s' := by
  have hmoulds : s'.moulds = s.moulds := by rw [State.moulds, State.moulds, hlog]
  refine ⟨hplaced, ?_, ?_, ?_, ?_, ?_⟩
  · rw [hlog, hmoulds, hdone]
    exact h.counted
  · rw [hlog]
    exact h.level
  · rw [hmoulds]
    exact h.chained
  · rw [hmoulds, hforming]
    exact h.forming
  · rw [hmoulds, hdata]
    exact h.still

theorem findPort_eq_some {point : UInt8} {port : PortCollect} (h : findPort point = some port) :
    port.index = point ∧ port ∈ portCollectConfig :=
  ⟨by simpa using List.find?_some h, List.mem_of_find?_eq_some h⟩

theorem scan_inv (hf : cfg.Fits) (h : Inv cfg s) (hpc : s.pc = .scan) (e : Input) :
    ∃ s', step cfg s e = some s' ∧ Inv cfg s' := by
  have hplaced := h.placed
  simp only [State.Placed, hpc] at hplaced
  have hdone : s.done = s.scanIndex := by simp [State.done, hpc]
  simp only [step, hpc]
  obtain hlt | heq := Nat.lt_or_eq_of_le hplaced
  · have hpoint : cfg.configured[s.scanIndex]? = some cfg.configured[s.scanIndex] :=
      List.getElem?_eq_getElem hlt
    have hmem : cfg.configured[s.scanIndex] ∈ cfg.configured := List.getElem_mem hlt
    obtain ⟨port, hport⟩ := Option.isSome_iff_exists.mp (hf.known _ hmem)
    obtain ⟨hindex, htable⟩ := findPort_eq_some hport
    rw [portCollect_of_lt hlt, hpoint]
    simp only [Option.bind_eq_bind, Option.bind_some, if_neg (ne_zero_of_mem_configured hmem),
      hport]
    refine ⟨_, rfl, h.frame rfl hdone.symm rfl rfl ?_⟩
    exact ⟨by rw [hpoint, hindex], htable⟩
  · have hzero : cfg.portCollect[s.scanIndex]? = some 0 := by
      rw [heq, portCollect_length hf.zero]
    rw [hzero]
    exact ⟨_, rfl, h.frame rfl hdone.symm rfl rfl heq⟩

/-- The state after a point was reached. -/
def State.next (s : State) (port : PortCollect) (times : Vector Moment 20) (cycles : Cycles)
    (now : Moment) : State :=
  { s with
    portCollectStartTime := times
    formingCycleStartTime :=
      if s.modeCount = 0 ∧ s.scanIndex = 0 then now else s.formingCycleStartTime
    cycles := cycles
    scanIndex := s.scanIndex + 1
    pc := .scan
    log := s.log ++ [.reached port.index port.udwPortNo port.udwIoLogic] }

theorem Inv.next (h : Inv cfg s) {port : PortCollect} {ucPortStatus : UInt16}
    (hpc : s.pc = .wait port ucPortStatus) {e : Input} (hu : Unwrapped cfg s e)
    (times : Vector Moment 20) (cycles : Cycles) (now : Moment) :
    Inv cfg (s.next port times cycles now) := by
  have hplaced := h.placed
  simp only [State.Placed, hpc] at hplaced
  obtain ⟨hpoint, htable⟩ := hplaced
  have hdone : s.done = s.scanIndex := by simp [State.done, hpc]
  have hmoulds : (s.next port times cycles now).moulds = s.moulds := by
    simp [State.moulds, State.next, Entry.mould?]
  refine ⟨?_, ?_, ?_, ?_, ?_, ?_⟩
  · exact (List.getElem?_eq_some_iff.mp hpoint).1
  · rw [hmoulds, State.next, List.map_append, h.counted, hdone, List.append_assoc]
    congr 1
    show _ = (cfg.configured.take (s.scanIndex + 1)).map some
    rw [List.take_add_one, hpoint, List.map_append]
    rfl
  · intro point port' level hmem
    obtain hmem | hmem := List.mem_append.mp hmem
    · exact h.level point port' level hmem
    · cases List.mem_singleton.mp hmem
      exact htable
  · rw [hmoulds]
    exact h.chained
  · intro ht m hm
    rw [hmoulds] at hm
    simp only [State.next]
    split
    · next hfirst =>
      -- the start is set again only while there is no mould
      rw [hu ⟨port, _, hpc⟩ hfirst.2 hfirst.1 ht] at hm
      cases hm
    · exact h.forming ht m hm
  · rw [hmoulds]
    exact h.still

theorem wait_inv (hf : cfg.Fits) (h : Inv cfg s) {port : PortCollect} {ucPortStatus : UInt16}
    (hpc : s.pc = .wait port ucPortStatus) {e : Input} (hu : Unwrapped cfg s e) :
    ∃ s', step cfg s e = some s' ∧ Inv cfg s' := by
  have hplaced := h.placed
  simp only [State.Placed, hpc] at hplaced
  obtain ⟨hpoint, htable⟩ := hplaced
  have hlt : s.scanIndex < cfg.configured.length := (List.getElem?_eq_some_iff.mp hpoint).1
  have hlen := hf.zero
  simp only [step, hpc]
  split
  · next hlevel =>
    obtain ⟨times, htimes⟩ :=
      write_isSome s.portCollectStartTime (i := s.scanIndex) (some e.now) (by omega)
    obtain ⟨j, hj, hzero⟩ := hf.cycles
    obtain ⟨cycles, hcycles⟩ :=
      loop_isSome port.index (some e.now) hj hzero (n := 20) (Nat.zero_le j) s.cycles
    refine ⟨s.next port times cycles (some e.now), ?_, h.next hpc hu times cycles _⟩
    simp only [State.reach, portCollect_of_lt hlt, hpoint, htimes, hcycles, hlevel,
      Option.bind_eq_bind, Option.bind_some, Option.pure_def]
    rfl
  · refine ⟨_, rfl, h.frame rfl ?_ rfl rfl ⟨hpoint, htable⟩⟩
    simp [State.done, hpc]

theorem data_of_not_hasTimes (ht : cfg.hasTimes = false) : s.data cfg = s.prodctdata := by
  simp [State.data, ht]

/-- The new mould begins when the last one ends. -/
theorem Inv.startCycle_mould (h : Inv cfg s) {m : Mould} (hm : s.moulds.getLast? = some m) :
    (s.mould cfg).startCycle = m.endCycle := by
  cases ht : cfg.hasTimes with
  | true =>
    rw [← h.forming ht m hm]
    simp [State.mould, State.data, ht]
  | false =>
    obtain ⟨hstart, -, hall⟩ := h.still ht
    rw [hall m (List.mem_of_getLast? hm), State.mould, data_of_not_hasTimes ht]
    exact hstart

/-- At the end of a pass the mould is counted. -/
theorem Inv.count (h : Inv cfg s) (hpc : s.pc = .count) : Inv cfg (s.count cfg) := by
  have hindex := h.placed
  simp only [State.Placed, hpc] at hindex
  have hdone : s.done = s.scanIndex := by simp [State.done, hpc]
  have hmoulds : (s.count cfg).moulds = s.moulds ++ [s.mould cfg] := by
    simp [State.moulds, State.count, Entry.mould?]
  refine ⟨trivial, ?_, ?_, ?_, ?_, ?_⟩
  · have hpoints : ((cfg.configured.take s.done).map some) ++ [none] = cfg.pass := by
      rw [hdone, hindex, List.take_length, DevCfg.pass]
    rw [hmoulds, List.length_append, List.length_singleton, List.replicate_add, List.flatten_append]
    simp only [State.count, List.map_append, h.counted, List.append_assoc, List.map_singleton,
      Entry.point?, hpoints]
    simp [State.done]
  · intro point port level hmem
    obtain hmem | hmem := List.mem_append.mp hmem
    · exact h.level point port level hmem
    · cases List.mem_singleton.mp hmem
  · rw [hmoulds, List.isChain_append]
    refine ⟨h.chained, List.isChain_singleton _, ?_⟩
    intro m hm m' hm'
    cases hm'
    exact h.startCycle_mould hm
  · intro ht m hm
    rw [hmoulds, List.getLast?_concat] at hm
    cases hm
    simp [State.count, State.mould, State.data, ht]
  · intro ht
    obtain ⟨hstart, hend, hall⟩ := h.still ht
    have hdata := data_of_not_hasTimes (s := s) ht
    rw [hmoulds]
    refine ⟨?_, ?_, ?_⟩
    · simpa [State.count, hdata] using hstart
    · simpa [State.count, hdata] using hend
    · intro m hm
      obtain hm | hm := List.mem_append.mp hm
      · exact hall m hm
      · cases List.mem_singleton.mp hm
        rw [State.mould, hdata]
        exact hend

theorem top_inv (h : Inv cfg s) (hpc : s.pc = .top) (e : Input) :
    ∃ s', step cfg s e = some s' ∧ Inv cfg s' := by
  simp only [step, hpc]
  split
  · exact ⟨s, rfl, h⟩
  · refine ⟨_, rfl, h.frame rfl ?_ rfl rfl (Nat.zero_le _)⟩
    simp [State.done, hpc]

theorem step_inv (hf : cfg.Fits) (h : Inv cfg s) {e : Input} (hu : Unwrapped cfg s e) :
    ∃ s', step cfg s e = some s' ∧ Inv cfg s' := by
  cases hpc : s.pc with
  | top => exact top_inv h hpc e
  | scan => exact scan_inv hf h hpc e
  | wait port ucPortStatus => exact wait_inv hf h hpc hu
  | count =>
    refine ⟨s.count cfg, ?_, h.count hpc⟩
    simp only [step, hpc]

/-! ## Configurations that do not fit -/

/-- The points that are reached before the scan stops. -/
def DevCfg.reachable (cfg : DevCfg) : List UInt8 :=
  cfg.configured.takeWhile fun point => (findPort point).isSome

/-- A run that reached the first points of the first pass and is about to look for the next one. -/
structure Reaches (cfg : DevCfg) (s : State) (i : Nat) (inputs : List Input) (t : State) : Prop where
  meets : Meets (step cfg) (Unwrapped cfg) s inputs
  run : run (step cfg) s inputs = some t
  pc : t.pc = .scan
  scanIndex : t.scanIndex = i
  moulds : t.moulds = []
  points : t.log.map Entry.point? = (cfg.configured.take i).map some

theorem unwrapped_of_moulds (h : s.moulds = []) (e : Input) : Unwrapped cfg s e :=
  fun _ _ _ _ => h

/-- A run without moulds goes on for a step. -/
theorem meets_concat {inputs : List Input} {t : State}
    (hm : Meets (step cfg) (Unwrapped cfg) s inputs) (hr : run (step cfg) s inputs = some t)
    (ht : t.moulds = []) (e : Input) : Meets (step cfg) (Unwrapped cfg) s (inputs ++ [e]) :=
  hm.glue hr (.single (unwrapped_of_moulds ht e))

/-- What a point that is reached says about the arrays and the new state. -/
theorem reach_eq_some {port : PortCollect} {level : UInt16} {now : Moment}
    (h : s.reach cfg port level now = some s') :
    ∃ point cycles, cfg.portCollect[s.scanIndex]? = some point ∧
      s.cycles.loop cfg point now 20 0 = some cycles ∧ s'.pc = .scan ∧
      s'.scanIndex = s.scanIndex + 1 ∧ s'.log = s.log ++ [.reached point port.udwPortNo level] ∧
      s'.modeCount = s.modeCount := by
  simp only [State.reach, Option.bind_eq_bind, Option.bind_eq_some_iff, Option.pure_def,
    Option.some.injEq] at h
  obtain ⟨point, hpoint, times, -, cycles, hcycles, rfl⟩ := h
  exact ⟨point, cycles, hpoint, hcycles, rfl, rfl, rfl, rfl⟩

variable {fillTimeLong cycleTimeLong : UInt32}

/-- If moulds are counted as they should be, a run without moulds can go on. -/
theorem Counts.exists_step (hc : Counts cfg fillTimeLong cycleTimeLong) {inputs : List Input}
    {t : State} (hm : Meets (step cfg) (Unwrapped cfg) (init fillTimeLong cycleTimeLong) inputs)
    (hr : run (step cfg) (init fillTimeLong cycleTimeLong) inputs = some t) (ht : t.moulds = [])
    (e : Input) :
    ∃ t', step cfg t e = some t' ∧ Good cfg t' ∧
      Meets (step cfg) (Unwrapped cfg) (init fillTimeLong cycleTimeLong) (inputs ++ [e]) ∧
        run (step cfg) (init fillTimeLong cycleTimeLong) (inputs ++ [e]) = some t' := by
  have hmeets := meets_concat hm hr ht e
  obtain ⟨t', ht', hgood⟩ := hc _ hmeets
  obtain ⟨m, hm', hlast⟩ := run_concat_eq_some.mp ht'
  cases hr.symm.trans hm'
  exact ⟨t', hlast, hgood, hmeets, ht'⟩

theorem exists_reaches_zero (h0 : cfg.portCollect[0] ≠ 0) :
    ∃ inputs t, Reaches cfg (init fillTimeLong cycleTimeLong) 0 inputs t := by
  have hstep : step cfg (init fillTimeLong cycleTimeLong) ⟨none, 0⟩ =
      some { init fillTimeLong cycleTimeLong with pc := .scan } := by
    simp only [step, init, if_neg h0]
  refine ⟨[⟨none, 0⟩], _, ?_, run_cons_eq_some.mpr ⟨_, hstep, rfl⟩, rfl, rfl, rfl, rfl⟩
  have hnil : Meets (step cfg) (Unwrapped cfg) (init fillTimeLong cycleTimeLong) [] := trivial
  exact meets_concat hnil rfl rfl _

theorem step_scan {e : Input} {point : UInt8} (hpc : s.pc = .scan)
    (hpoint : cfg.portCollect[s.scanIndex]? = some point) (h0 : point ≠ 0) :
    step cfg s e = some { s with
      pc := match findPort point with
        | none => .count
        | some port => .wait port 0 } := by
  simp only [step, hpc, hpoint, Option.bind_eq_bind, Option.bind_some, if_neg h0]
  cases findPort point <;> rfl

theorem exists_reaches_succ (hc : Counts cfg fillTimeLong cycleTimeLong) {inputs : List Input}
    {t : State} (hr : Reaches cfg (init fillTimeLong cycleTimeLong) i inputs t)
    (hi : i < cfg.reachable.length) :
    (∃ inputs' t', Reaches cfg (init fillTimeLong cycleTimeLong) (i + 1) inputs' t') ∧
      ∃ point now c c', Cycles.loop cfg point now 20 0 c = some c' := by
  have hprefix : cfg.reachable <+: cfg.configured := List.takeWhile_prefix _
  have hlt : i < cfg.configured.length := Nat.lt_of_lt_of_le hi hprefix.length_le
  obtain ⟨port, hport⟩ : ∃ port, findPort cfg.configured[i] = some port := by
    have hmem : cfg.configured[i] ∈ cfg.reachable := by
      rw [← hprefix.getElem hi]
      exact List.getElem_mem hi
    have hknown : ∀ point ∈ cfg.reachable, (findPort point).isSome :=
      List.all_eq_true.mp List.all_takeWhile
    exact Option.isSome_iff_exists.mp (hknown _ hmem)
  have hpoint : cfg.portCollect[t.scanIndex]? = some cfg.configured[i] := by
    rw [hr.scanIndex, portCollect_of_lt hlt, List.getElem?_eq_getElem hlt]
  -- the port is found, and then polled at its level
  have hscan : step cfg t ⟨none, 0⟩ = some { t with pc := .wait port 0 } := by
    rw [step_scan hr.pc hpoint (ne_zero_of_mem_configured (List.getElem_mem hlt)), hport]
  have hwait : step cfg { t with pc := .wait port 0 } ⟨some port.udwIoLogic, 0⟩ =
      ({ t with pc := .wait port 0 } : State).reach cfg port port.udwIoLogic (some 0) := by
    simp only [step, Option.getD_some, if_true]
  obtain ⟨_, hstep, -, hmeets, hrun⟩ := hc.exists_step hr.meets hr.run hr.moulds ⟨none, 0⟩
  cases hscan.symm.trans hstep
  obtain ⟨t', hreach, -, hmeets', hrun'⟩ :=
    hc.exists_step hmeets hrun hr.moulds ⟨some port.udwIoLogic, 0⟩
  obtain ⟨point, cycles, hpoint', hloop, hpc, hindex, hlog, -⟩ := reach_eq_some (hwait ▸ hreach)
  refine ⟨⟨_, t', hmeets', hrun', hpc, ?_, ?_, ?_⟩, ⟨_, _, _, _, hloop⟩⟩
  · rw [hindex]
    exact congrArg (· + 1) hr.scanIndex
  · rw [State.moulds, hlog, List.filterMap_append]
    exact congrArg (· ++ []) hr.moulds
  · obtain rfl : cfg.configured[i] = point := by
      rw [hpoint] at hpoint'
      exact Option.some.inj hpoint'
    rw [hlog, List.map_append, List.take_add_one, List.getElem?_eq_getElem hlt, List.map_append]
    exact congrArg (· ++ _) hr.points

/-- Every point up to the first unknown one can be reached. -/
theorem exists_reaches (hc : Counts cfg fillTimeLong cycleTimeLong) (h0 : cfg.portCollect[0] ≠ 0)
    (hi : i ≤ cfg.reachable.length) :
    ∃ inputs t, Reaches cfg (init fillTimeLong cycleTimeLong) i inputs t := by
  induction i with
  | zero => exact exists_reaches_zero h0
  | succ i ih =>
    obtain ⟨inputs, t, hr⟩ := ih (by omega)
    exact (exists_reaches_succ hc hr (by omega)).1

/-- A pass that an unknown point cuts short is not a complete one. -/
theorem not_good_of_cut {t : State} {k : Nat} (hk : k < cfg.configured.length)
    (hlog : t.log.map Entry.point? = (cfg.configured.take k).map some ++ [none]) : ¬ Good cfg t := by
  rintro ⟨⟨n, k', hcounted⟩, -, -⟩
  rw [hlog] at hcounted
  cases n with
  | zero =>
    have hmem : none ∈ (cfg.configured.take k').map some := by
      rw [← List.nil_append (List.map some _)]
      exact hcounted ▸ List.mem_append_right _ List.mem_cons_self
    obtain ⟨point, -, hpoint⟩ := List.mem_map.mp hmem
    cases hpoint
  | succ n =>
    have hlen := congrArg List.length hcounted
    simp [List.replicate_succ, DevCfg.pass] at hlen
    omega

/-- Every point has to be known: a pass stops at the first that is not. -/
theorem Counts.known (hc : Counts cfg fillTimeLong cycleTimeLong) (h0 : cfg.portCollect[0] ≠ 0) :
    cfg.reachable.length = cfg.configured.length := by
  have hprefix : cfg.reachable <+: cfg.configured := List.takeWhile_prefix _
  obtain hlt | heq := Nat.lt_or_eq_of_le hprefix.length_le
  · obtain ⟨inputs, t, hr⟩ := exists_reaches hc h0 (le_refl _)
    obtain ⟨point, hpoint⟩ : ∃ point, cfg.configured[cfg.reachable.length]? = some point :=
      ⟨_, List.getElem?_eq_getElem hlt⟩
    have hunknown : findPort point = none := by
      simpa using not_of_length_takeWhile hpoint
    have hscan : step cfg t ⟨none, 0⟩ = some { t with pc := .count } := by
      rw [step_scan hr.pc (by rw [hr.scanIndex, portCollect_of_lt hlt, hpoint])
        (ne_zero_of_mem_configured (List.mem_of_getElem? hpoint)), hunknown]
    -- the scan ends, and a mould is counted
    obtain ⟨_, hstep, -, hmeets, hrun⟩ := hc.exists_step hr.meets hr.run hr.moulds ⟨none, 0⟩
    cases hscan.symm.trans hstep
    obtain ⟨_, hcount, hgood, -⟩ := hc.exists_step hmeets hrun hr.moulds ⟨none, 0⟩
    cases hcount
    refine absurd hgood (not_good_of_cut hlt ?_)
    rw [State.count, List.map_append]
    exact congrArg (· ++ _) hr.points
  · exact heq

theorem Counts.fits (hc : Counts cfg fillTimeLong cycleTimeLong) (h0 : cfg.portCollect[0] ≠ 0) :
    cfg.Fits := by
  have hlen := hc.known h0
  have hprefix : cfg.reachable <+: cfg.configured := List.takeWhile_prefix _
  have heq : cfg.reachable = cfg.configured := hprefix.eq_of_length hlen
  have hzero : cfg.configured.length < 20 := by
    obtain hlt | h20 := Nat.lt_or_eq_of_le (length_configured_le cfg)
    · exact hlt
    · -- the scan reads behind the array
      obtain ⟨inputs, t, hr⟩ := exists_reaches hc h0 (le_refl _)
      obtain ⟨_, hlast, -⟩ := hc.exists_step hr.meets hr.run hr.moulds ⟨none, 0⟩
      have hnone : cfg.portCollect[t.scanIndex]? = none := by
        rw [hr.scanIndex, hlen, h20]
        rfl
      simp only [step, hr.pc, hnone] at hlast
      cases hlast
  refine ⟨hzero, ?_, ?_⟩
  · rw [← heq]
    exact List.all_eq_true.mp List.all_takeWhile
  · by_contra hne
    have hpos : 0 < cfg.configured.length := by
      by_contra hnil
      have hnone := portCollect_length hzero
      rw [Nat.eq_zero_of_not_pos hnil] at hnone
      exact h0 (Option.some.inj hnone)
    obtain ⟨inputs, t, hr⟩ := exists_reaches hc h0 (Nat.zero_le _)
    obtain ⟨-, point, now, c, c', hloop⟩ := exists_reaches_succ hc hr (by omega)
    rw [loop_eq_none point now (by simpa using hne) rfl (by omega)] at hloop
    cases hloop

/-! ## The result -/

/-- **Counting moulds.** As long as `ModeCount` does not come back to zero, every mould is counted
for a complete pass, the arrays are kept and the moulds follow each other, exactly when both arrays
of the configuration end and every point in it is known. -/
theorem counts_iff (cfg : DevCfg) (fillTimeLong cycleTimeLong : UInt32)
    (h0 : cfg.portCollect[0] ≠ 0) : Counts cfg fillTimeLong cycleTimeLong ↔ cfg.Fits := by
  constructor
  · exact fun hc => hc.fits h0
  · intro hf inputs hm
    obtain ⟨t, ht, hinv⟩ := run_of_meets (fun s e hs hu => step_inv hf hs hu)
      (inv_init cfg fillTimeLong cycleTimeLong) hm
    exact ⟨t, ht, hinv.good⟩

/-- Two points on the first port, and no cycles. -/
def twoPoints : DevCfg where
  portCollect := #v[1, 2, 0, 0, 0, 0, 0, 0, 0, 0, 0, 0, 0, 0, 0, 0, 0, 0, 0, 0]
  cycleCollect := Vector.replicate 20 0
  machineType := 0

theorem counts_iff_two_points : twoPoints.portCollect[0] ≠ 0 ∧ Counts twoPoints 0 0 := by
  have h0 : twoPoints.portCollect[0] ≠ 0 := by decide
  exact ⟨h0, (counts_iff twoPoints 0 0 h0).mpr ⟨by decide, by decide +kernel, ⟨0, by decide, by decide⟩⟩⟩

/-- A point that there is not stands behind the first one. -/
def unknownPoint : DevCfg := { twoPoints with
  portCollect := #v[1, 99, 0, 0, 0, 0, 0, 0, 0, 0, 0, 0, 0, 0, 0, 0, 0, 0, 0, 0] }

/-- The pass is cut short at the unknown point, and a mould is counted. -/
theorem not_good_unknown_point :
    ¬ ∀ (cfg : DevCfg) (inputs : List Input) (t : State), cfg.portCollect[0] ≠ 0 →
      run (step cfg) (init 0 0) inputs = some t → Good cfg t := by
  intro h
  have hrun : (run (step unknownPoint) (init 0 0) (List.replicate 5 ⟨some logicHigh, 0⟩)).map
      (fun t => t.log.map Entry.point?) = some [some 1, none] := by decide +kernel
  obtain ⟨t, ht, hlog⟩ := Option.map_eq_some_iff.mp hrun
  have hcut : ¬ Good unknownPoint t := not_good_of_cut (k := 1) (by decide) hlog
  exact hcut (h unknownPoint _ t (by decide) ht)

/-! ## How often `ModeCount` is zero -/

theorem step_modeCount {e : Input} (h : s.modeCount = UInt16.ofNat s.moulds.length)
    (hs : step cfg s e = some s') : s'.modeCount = UInt16.ofNat s'.moulds.length := by
  cases hpc : s.pc with
  | top =>
    simp only [step, hpc] at hs
    split at hs <;> cases hs <;> exact h
  | scan =>
    simp only [step, hpc, Option.bind_eq_bind, Option.bind_eq_some_iff] at hs
    obtain ⟨point, -, hs⟩ := hs
    split at hs
    · cases hs
      exact h
    · split at hs <;> cases hs <;> exact h
  | wait port ucPortStatus =>
    simp only [step, hpc] at hs
    split at hs
    · obtain ⟨_, _, -, -, -, -, hlog, hmode⟩ := reach_eq_some hs
      rw [hmode, h, State.moulds, State.moulds, hlog, List.filterMap_append]
      exact congrArg (fun l : List Mould => UInt16.ofNat l.length) (List.append_nil _).symm
    · cases hs
      exact h
  | count =>
    simp only [step, hpc, Option.some.injEq] at hs
    subst hs
    have hmoulds : (s.count cfg).moulds = s.moulds ++ [s.mould cfg] := by
      simp [State.moulds, State.count, Entry.mould?]
    rw [hmoulds, List.length_append, List.length_singleton, UInt16.ofNat_add, ← h]
    rfl

/-- `ModeCount` is the number of moulds modulo 2^16: it is zero again after 65536 of them. -/
theorem run_modeCount {inputs : List Input} {t : State}
    (h : run (step cfg) (init fillTimeLong cycleTimeLong) inputs = some t) :
    t.modeCount = UInt16.ofNat t.moulds.length := by
  have hmeets : Meets (step cfg) (fun _ _ => True) (init fillTimeLong cycleTimeLong) inputs :=
    Meets.of_forall (fun _ _ => trivial) _ _
  exact run_invariant (fun _ _ _ hs _ hstep => step_modeCount hs hstep) rfl hmeets h

end ProgrammingPath.Mes.CollectCycle
