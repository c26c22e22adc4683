import ProgrammingPath.Mes.StopCard

/-!
# The stop flag and the buttons (`Public/ButtonStatus.cpp`)

`AppInfo::haveStopCard` is a copy of what `UIPageButtonStatus::isStopCard` computes from the buttons.
It is made by `onButtonStatChang`, at the end of a read and whenever a button that is connected
changes. A button that the look-up of a key adds shows "start" and is not connected, so neither its
coming nor its changes reach the flag. `FlagKept` says for each operation when the copy stays right,
and it stays right along a run exactly when every step is of that kind (`flagRight_iff`).

The file of the buttons is given with the read, as the list of what `XMLRead` got from it; what is
written back to it is left out, and so is the bound text.
-/

namespace ProgrammingPath.Mes

open ProgrammingPath.Qt ProgrammingPath.Lib

/-! ## The operations -/

/-- A button as the file has it. What the file does not say is as in `ButtonStatus()`. -/
structure SavedStatus where
  funIndex : Int := -1
  showStatus : Int := 1
  deriving DecidableEq, Repr

def SavedStatus.isShowStart (s : SavedStatus) : Bool := s.showStatus == 0

/-- The loop over the saved buttons: the last one of the function decides. -/
def ButtonStatus.restore (saved : List SavedStatus) (status : ButtonStatus) : ButtonStatus :=
  saved.foldl (fun b s =>
    if s.funIndex = (b.funIndex.toNat : Int) then { b with showStatus := if s.isShowStart then 0 else 1 }
    else b) status

/-- `UIPageButtonStatus::XMLFileReadUIBtStatus`; `none` is a file that does not exist. The buttons
are connected when all of them are there, and the flag is computed last. -/
def Page.xmlFileReadUIBtStatus (cfg : PageCfg) (file : Option (List SavedStatus)) (p : Page) : Page :=
  ({ p with
      uiBtStatus :=
        match file with
        | none => Page.readUIBtStatus cfg
        | some saved => (Page.readUIBtStatus cfg).map (·.restore saved) } : Page).onButtonStatChang cfg

/-- `UIPageButtonStatus::changeButtonStatus` with the button of a function. -/
def Page.changeButtonStatus (cfg : PageCfg) (p : Page) (funIndex : UInt16) : Page :=
  match p.getUIBtStatus funIndex with
  | none => p
  | some bt => if bt.isShowStart then p.setShowEndCard cfg funIndex else p.setShowStartCard cfg funIndex

/-- The buttons with the configuration that is in force. -/
structure Panel where
  cfg : PageCfg
  page : Page

namespace Panel

inductive Op where
  /-- `XMLFileReadUIBtStatus` under a configuration and with a file -/
  | read (cfg : PageCfg) (file : Option (List SavedStatus))
  /-- `AppInfo::init`, when the server has sent new configuration files -/
  | init (cfg : PageCfg)
  /-- `getUIBtStatus(keyInfo)` -/
  | getKey (key : SetKeyInfo)
  /-- `getUIBtStatus(funIndex)` -/
  | get (funIndex : Int)
  /-- what is done with the button that a look-up returned -/
  | change (funIndex : UInt16)
  | setShowStartCard (funIndex : UInt16)
  | setShowEndCard (funIndex : UInt16)

def read (s : Panel) (cfg : PageCfg) (file : Option (List SavedStatus)) : Panel :=
  ⟨cfg, s.page.xmlFileReadUIBtStatus cfg file⟩

def step (s : Panel) : Op → Option Panel
  | .read cfg file => some (s.read cfg file)
  | .init cfg => some { s with cfg }
  | .getKey key => some { s with page := s.page.addButton key }
  | .get _ => some s
  | .change f => some { s with page := s.page.changeButtonStatus s.cfg f }
  | .setShowStartCard f => some { s with page := s.page.setShowStartCard s.cfg f }
  | .setShowEndCard f => some { s with page := s.page.setShowEndCard s.cfg f }

/-- The flag says what the buttons say. -/
def FlagRight (s : Panel) : Prop := s.page.haveStopCard = s.page.isStopCard s.cfg

/-- A button other than the first one of the function keeps the machine from running. -/
def otherStop (s : Panel) (f : UInt16) : Bool :=
  (s.page.uiBtStatus.eraseP fun b => b.funIndex == f).any (·.isStopStart s.cfg)

/-- The button of the function may be set to a status: it is connected, its function does not stop
the machine, another button does, or it shows what it showed. -/
def SetKept (s : Panel) (f : UInt16) (status : Int) : Prop :=
  ∀ bt, s.page.getUIBtStatus f = some bt →
    bt.connected ∨ s.cfg.isStop f = false ∨ s.otherStop f ∨ bt.isShowStart = (status == 0)

/-- When an operation keeps the flag right. -/
def FlagKept (s : Panel) : Op → Prop
  | .read _ _ => True
  | .init cfg => s.page.isStopCard cfg = s.page.isStopCard s.cfg
  | .getKey key =>
    (∃ b ∈ s.page.uiBtStatus, b.funIndex = key.funIndex) ∨ s.cfg.isStop key.funIndex = false ∨
      s.page.haveStopCard
  | .get _ => True
  | .change f =>
    ∀ bt, s.page.getUIBtStatus f = some bt → s.SetKept f (if bt.isShowStart then 1 else 0)
  | .setShowStartCard f => s.SetKept f 0
  | .setShowEndCard f => s.SetKept f 1

/-! ## What an operation does to the flag -/

variable {s : Panel} {cfg : PageCfg} {p : Page} {f : UInt16} {status : Int}

theorem isStopCard_addButton (key : SetKeyInfo)
    (h : ¬ ∃ b ∈ p.uiBtStatus, b.funIndex = key.funIndex) :
    (p.addButton key).isStopCard cfg = (p.isStopCard cfg || cfg.isStop key.funIndex) := by
  have hany : p.uiBtStatus.any (fun b => b.funIndex == key.funIndex) = false := by
    simpa using h
  simp [Page.addButton, hany, Page.isStopCard, ButtonStatus.isStopStart, ButtonStatus.isShowStart]

theorem getKey_flagRight_iff (key : SetKeyInfo) (h : s.FlagRight) :
    FlagRight { s with page := s.page.addButton key } ↔ s.FlagKept (.getKey key) := by
  unfold FlagRight at h
  by_cases hb : ∃ b ∈ s.page.uiBtStatus, b.funIndex = key.funIndex
  · have hany : s.page.uiBtStatus.any (fun b => b.funIndex == key.funIndex) = true := by
      simpa using hb
    simp [FlagRight, FlagKept, Page.addButton, hany, hb, h]
  · have hflag : (s.page.addButton key).haveStopCard = s.page.haveStopCard := by
      unfold Page.addButton
      split <;> rfl
    simp only [FlagRight, FlagKept, hflag, isStopCard_addButton key hb, hb, h, false_or]
    cases s.page.isStopCard s.cfg <;> cases s.cfg.isStop key.funIndex <;> simp

/-- The machine stands still because of the first button of the function, or of another one. -/
theorem isStopCard_eq {bt : ButtonStatus} (hb : s.page.getUIBtStatus f = some bt) :
    s.page.isStopCard s.cfg = (s.otherStop f || bt.isStopStart s.cfg) := by
  have hfind : s.page.uiBtStatus.find? (fun b => b.funIndex == f) = some bt := hb
  rw [Page.isStopCard, any_eq_eraseP (fun b => b.funIndex == f), hfind, Option.any_some]
  rfl

theorem isStopCard_setShow {bt : ButtonStatus} (hb : s.page.getUIBtStatus f = some bt)
    (status : Int) :
    (s.page.setShow s.cfg f status).isStopCard s.cfg =
      (s.otherStop f || (status == 0 && s.cfg.isStop f)) := by
  have hfind : s.page.uiBtStatus.find? (fun b => b.funIndex == f) = some bt := hb
  have hbf : bt.funIndex = f := by simpa using List.find?_some hfind
  have hany := any_updateFirst (q := fun b => b.isStopStart s.cfg)
    (f := fun b => { b with showStatus := status }) (p := fun b => b.funIndex == f) s.page.uiBtStatus
  rw [hfind] at hany
  refine hany.trans ?_
  simp [ButtonStatus.isStopStart, ButtonStatus.isShowStart, hbf, otherStop]

/-- Without a button there is nothing to set. -/
theorem setShow_of_none (hb : s.page.getUIBtStatus f = none) (status : Int) :
    s.page.setShow s.cfg f status = s.page := by
  have hfind : s.page.uiBtStatus.find? (fun b => b.funIndex == f) = none := hb
  have hsame : updateFirst (fun b => b.funIndex == f) (fun b => { b with showStatus := status })
      s.page.uiBtStatus = s.page.uiBtStatus := by
    generalize s.page.uiBtStatus = l at hfind
    induction l with
    | nil => rfl
    | cons b l ih =>
      simp only [List.find?_cons] at hfind
      split at hfind
      · cases hfind
      · next hp => simp [updateFirst, hp, ih hfind]
  simp [Page.setShow, hsame, Page.onStatChange, Page.getUIBtStatus, hfind]

theorem setShow_flagRight_iff (h : s.FlagRight) (status : Int) :
    FlagRight { s with page := s.page.setShow s.cfg f status } ↔ s.SetKept f status := by
  unfold FlagRight at h
  cases hb : s.page.getUIBtStatus f with
  | none =>
    simp only [FlagRight, SetKept, setShow_of_none hb, hb, h]
    simp
  | some bt =>
    have hbf : bt.funIndex = f := by simpa using List.find?_some hb
    -- before, the flag counted the button as it was
    have hbefore : s.page.haveStopCard = (s.otherStop f || bt.isStopStart s.cfg) := by
      rw [h, isStopCard_eq hb]
    simp only [FlagRight, SetKept, Page.haveStopCard_setShow hb, hb, Option.some.injEq, forall_eq']
    cases bt.connected with
    | true => simp
    | false =>
      rw [if_neg (by simp), isStopCard_setShow hb, hbefore, ButtonStatus.isStopStart, hbf]
      cases s.otherStop f <;> cases s.cfg.isStop f <;> simp

theorem change_flagRight_iff (h : s.FlagRight) (f : UInt16) :
    FlagRight { s with page := s.page.changeButtonStatus s.cfg f } ↔ s.FlagKept (.change f) := by
  cases hb : s.page.getUIBtStatus f with
  | none =>
    have hsame : s.page.changeButtonStatus s.cfg f = s.page := by rw [Page.changeButtonStatus, hb]
    rw [hsame]
    refine iff_of_true h ?_
    intro bt hbt
    rw [hb] at hbt
    cases hbt
  | some bt =>
    have hkept : s.FlagKept (.change f) ↔ s.SetKept f (if bt.isShowStart then 1 else 0) := by
      simp [FlagKept, hb]
    simp only [hkept, Page.changeButtonStatus, hb]
    split
    · exact setShow_flagRight_iff h 1
    · exact setShow_flagRight_iff h 0

theorem read_flagRight (s : Panel) (cfg : PageCfg) (file : Option (List SavedStatus)) :
    (s.read cfg file).FlagRight := rfl

theorem step_flagRight (h : s.FlagRight) (e : Op) :
    ∃ s', s.step e = some s' ∧ (s'.FlagRight ↔ s.FlagKept e) := by
  cases e with
  | read cfg file => exact ⟨_, rfl, iff_of_true (s.read_flagRight cfg file) trivial⟩
  | init cfg =>
    refine ⟨_, rfl, ?_⟩
    rw [FlagRight, FlagKept, ← h]
    exact eq_comm
  | getKey key => exact ⟨_, rfl, getKey_flagRight_iff key h⟩
  | get _ => exact ⟨_, rfl, iff_of_true h trivial⟩
  | change f => exact ⟨_, rfl, change_flagRight_iff h f⟩
  | setShowStartCard f => exact ⟨_, rfl, setShow_flagRight_iff h 0⟩
  | setShowEndCard f => exact ⟨_, rfl, setShow_flagRight_iff h 1⟩

/-! ## Runs -/

/-- Key 21 is on the page; 22 stops the machine and is not. -/
def keyBesidePage : PageCfg where
  pdFuncCfg :=
    { setKeyList := [{ funIndex := 21 }], notSetKeyList := [{ funIndex := 22, status := 1 }] }

/-- Every key of the configuration has a button, and all buttons are connected. -/
structure Fitted (s : Panel) : Prop where
  funs : s.page.uiBtStatus.map (·.funIndex) = Page.keyFuns s.cfg
  connected : ∀ b ∈ s.page.uiBtStatus, b.connected

theorem restore_frame (saved : List SavedStatus) (b : ButtonStatus) :
    (b.restore saved).funIndex = b.funIndex ∧ (b.restore saved).connected = b.connected := by
  unfold ButtonStatus.restore
  constructor
  · apply foldl_frame (fun b : ButtonStatus => b.funIndex)
    intro b s
    split <;> rfl
  · apply foldl_frame (fun b : ButtonStatus => b.connected)
    intro b s
    split <;> rfl

/-- A read fits the buttons to the configuration. -/
theorem read_fitted (s : Panel) (cfg : PageCfg) (file : Option (List SavedStatus)) :
    (s.read cfg file).Fitted where
  funs := by
    cases file with
    | none =>
      simp [read, Page.xmlFileReadUIBtStatus, Page.onButtonStatChang, Page.readUIBtStatus,
        Page.keyFuns]
    | some saved =>
      simp [read, Page.xmlFileReadUIBtStatus, Page.onButtonStatChang, Page.readUIBtStatus,
        Page.keyFuns, (restore_frame saved _).1]
  connected := by
    intro b hb
    cases file with
    | none =>
      obtain ⟨key, -, rfl⟩ := List.mem_map.mp hb
      rfl
    | some saved =>
      obtain ⟨c, hc, rfl⟩ := List.mem_map.mp hb
      obtain ⟨key, -, rfl⟩ := List.mem_map.mp hc
      exact (restore_frame saved _).2

theorem Fitted.setShow (h : s.Fitted) (f : UInt16) (status : Int) :
    Fitted { s with page := s.page.setShow s.cfg f status } where
  funs := (Page.map_shown status).trans h.funs
  connected := Page.connected_shown h.connected status

theorem Fitted.setKept (h : s.Fitted) (f : UInt16) (status : Int) : s.SetKept f status := by
  intro bt hb
  exact .inl (h.connected bt (List.mem_of_find?_eq_some hb))

/-- The operations under the configuration in force. -/
def InForce (s : Panel) : Op → Prop
  | .init _ => False
  | .getKey key => key ∈ s.cfg.pdFuncCfg.setKeyList
  | _ => True

theorem step_fitted (h : s.Fitted) (hf : s.FlagRight) {e : Op} (he : s.InForce e) :
    ∃ s', s.step e = some s' ∧ s'.Fitted ∧ s'.FlagRight := by
  obtain ⟨s', hs, hiff⟩ := step_flagRight hf e
  refine ⟨s', hs, ?_⟩
  rw [hiff]
  cases e with
  | read cfg file =>
    cases hs
    exact ⟨s.read_fitted cfg file, trivial⟩
  | init cfg => exact he.elim
  | getKey key =>
    cases hs
    have hmem : key.funIndex ∈ Page.keyFuns s.cfg := List.mem_map_of_mem he
    rw [← h.funs] at hmem
    obtain ⟨b, hb, hbk⟩ := List.mem_map.mp hmem
    have hany : s.page.uiBtStatus.any (fun b => b.funIndex == key.funIndex) = true :=
      List.any_eq_true.mpr ⟨b, hb, by simpa using hbk⟩
    refine ⟨?_, .inl ⟨b, hb, hbk⟩⟩
    rwa [Page.addButton, if_pos hany]
  | get _ =>
    cases hs
    exact ⟨h, trivial⟩
  | change f =>
    cases hs
    refine ⟨?_, fun bt _ => h.setKept f _⟩
    unfold Page.changeButtonStatus
    split
    · exact h
    · split
      · exact h.setShow f 1
      · exact h.setShow f 0
  | setShowStartCard f =>
    cases hs
    exact ⟨h.setShow f 0, h.setKept f 0⟩
  | setShowEndCard f =>
    cases hs
    exact ⟨h.setShow f 1, h.setKept f 1⟩

/-- As long as the configuration stays and only its keys are looked up, the flag is right. -/
theorem run_flagRight (s : Panel) (cfg : PageCfg) (file : Option (List SavedStatus)) {ops : List Op}
    (h : Meets step InForce (s.read cfg file) ops) :
    ∃ t, run step (s.read cfg file) ops = some t ∧ t.FlagRight := by
  have hread : (s.read cfg file).Fitted ∧ (s.read cfg file).FlagRight :=
    ⟨s.read_fitted cfg file, s.read_flagRight cfg file⟩
  obtain ⟨t, ht, -, hf⟩ := run_of_meets (fun s e hs he => step_fitted hs.1 hs.2 he) hread h
  exact ⟨t, ht, hf⟩

end Panel

end ProgrammingPath.Mes
