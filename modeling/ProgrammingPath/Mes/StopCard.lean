import ProgrammingPath.Lib.Run
import ProgrammingPath.Mes.Buttons

/-!
# One stop card at a time

Without `isMultipleStopStatus` at most one function that stops the machine should be begun at any
time. `Outcome` says once what an event can do to the buttons: nothing, end a function, or begin one
that was granted. A function is granted by `OtherStopCardCheck`, or because its dialog is open, and
for the faults the dialog was opened after the check. The dialog of the machine adjustment (36)
opens without one, so the property depends on the configuration: it holds in every run exactly when
36 does not stop the machine or no other function with cards does (`exclusive_iff`).
-/

namespace ProgrammingPath.Mes.Page

open ProgrammingPath.Qt ProgrammingPath.Lib

variable {cfg : PageCfg} {p p' : Page} {f : UInt16}

/-! ## What is said about a page -/

/-- The buttons that keep the machine from running. -/
def stopStarts (cfg : PageCfg) (p : Page) : List ButtonStatus :=
  p.uiBtStatus.filter (·.isStopStart cfg)

/-- The functions that are begun and ended with cards. -/
def isCardFun (f : UInt16) : Bool :=
  [21, 22, 23, 24, 25, 26, 27, 28, 29, 31, 32, 36, 39, 44, 47].contains f.toNat

/-- The functions of the keys. -/
def keyFuns (cfg : PageCfg) : List UInt16 := cfg.pdFuncCfg.setKeyList.map (·.funIndex)

/-- The page was set up for the configuration and nothing is begun. -/
structure AllEnd (cfg : PageCfg) (p : Page) : Prop where
  funs : p.uiBtStatus.map (·.funIndex) = keyFuns cfg
  isShowEnd : ∀ b ∈ p.uiBtStatus, b.isShowEnd
  dialog : p.dialog = none

/-- Key 36 stops the machine, and so does another key of a function with cards. -/
def unguarded (cfg : PageCfg) : Bool :=
  (keyFuns cfg).contains 36 && cfg.isStop 36 &&
    (keyFuns cfg).any fun f => f != 36 && isCardFun f && cfg.isStop f

/-- If the machine is stopped, then by this function. -/
def OnlyStop (cfg : PageCfg) (p : Page) (f : UInt16) : Prop :=
  ∀ b ∈ p.uiBtStatus, b.isStopStart cfg → b.funIndex = f

/-- What the code keeps whatever the configuration. -/
structure Tidy (cfg : PageCfg) (p : Page) : Prop where
  funs : p.uiBtStatus.map (·.funIndex) = keyFuns cfg
  leading : Leading ButtonStatus.funIndex ButtonStatus.isShowStart p.uiBtStatus
  isCardFun : ∀ b ∈ p.uiBtStatus, b.isShowStart → isCardFun b.funIndex
  dialog : ∀ d, p.dialog = some d → d.funIndex ∈ keyFuns cfg ∧ Page.isCardFun d.funIndex

/-- The buttons after the first one of a function was set. -/
def shown (p : Page) (f : UInt16) (status : Int) : List ButtonStatus :=
  updateFirst (fun b => b.funIndex == f) (fun b => { b with showStatus := status }) p.uiBtStatus

/-! ## Looking things up -/

theorem exists_button (h : p.uiBtStatus.map (·.funIndex) = keyFuns cfg) (hf : f ∈ keyFuns cfg) :
    ∃ b, p.getUIBtStatus f = some b ∧ b.funIndex = f := by
  rw [← h] at hf
  obtain ⟨c, hc, rfl⟩ := List.mem_map.mp hf
  cases hb : p.getUIBtStatus c.funIndex with
  | none =>
    have := List.find?_eq_none.mp hb c hc
    simp at this
  | some b => exact ⟨b, rfl, by simpa using List.find?_some hb⟩

theorem exists_key (hf : f ∈ keyFuns cfg) :
    ∃ key, cfg.pdFuncCfg.getSetKeyInfo f = some key ∧ cfg.isStop f = key.isStopMachineFun := by
  obtain ⟨k, hk, rfl⟩ := List.mem_map.mp hf
  obtain ⟨key, hkey⟩ : ∃ key, cfg.pdFuncCfg.getSetKeyInfo k.funIndex = some key := by
    unfold MESPDFuncCfg.getSetKeyInfo
    cases hb : cfg.pdFuncCfg.setKeyList.find? (fun c => c.funIndex == k.funIndex) with
    | none =>
      have := List.find?_eq_none.mp hb k hk
      simp at this
    | some b => exact ⟨b, rfl⟩
  refine ⟨key, hkey, ?_⟩
  rw [PageCfg.isStop, hkey, Option.any_some]

/-- Showing the page adds no button when every key has one. -/
theorem showPage_eq (h : p.uiBtStatus.map (·.funIndex) = keyFuns cfg) : p.showPage cfg = p := by
  have key_mem : ∀ key ∈ cfg.pageKeys p.pageIndex, p.addButton key = p := by
    intro key hk
    have hmem : key.funIndex ∈ keyFuns cfg :=
      List.mem_map_of_mem (List.mem_of_mem_drop (List.mem_of_mem_take hk))
    rw [← h] at hmem
    obtain ⟨b, hb, hbk⟩ := List.mem_map.mp hmem
    refine if_pos (List.any_eq_true.mpr ⟨b, hb, ?_⟩)
    simpa using hbk
  unfold showPage
  generalize cfg.pageKeys p.pageIndex = keys at key_mem
  induction keys with
  | nil => rfl
  | cons key keys ih =>
    rw [List.foldl_cons, key_mem key List.mem_cons_self]
    exact ih (fun k hk => key_mem k (List.mem_cons_of_mem key hk))

theorem map_shown (status : Int) :
    (p.shown f status).map (·.funIndex) = p.uiBtStatus.map (·.funIndex) := by
  unfold shown
  exact map_updateFirst (by intro b; rfl) _

/-- The check lets a function through that is begun, or when no other one stops the machine. -/
theorem OnlyStop.of_check (hm : cfg.isMultipleStopStatus = false) {bt : ButtonStatus}
    (hc : p.otherStopCardCheck cfg bt = false) (hs : bt.isShowStart = false) :
    OnlyStop cfg p bt.funIndex := by
  have hother : p.isOtherStopCard cfg bt = false := by
    simpa [otherStopCardCheck, hm, hs] using hc
  intro b hb hstop
  by_contra hne
  have := List.any_eq_false.mp hother b hb
  simp [hstop, hne] at this

/-! ## What an event can do -/

/-- A dialog may open for the function. -/
def Opens (cfg : PageCfg) (p : Page) (f : UInt16) : Prop :=
  f ∈ keyFuns cfg ∧ isCardFun f ∧
    (f = 36 ∨ (cfg.isStop f →
      (∃ b, p.getUIBtStatus f = some b ∧ b.isShowStart) ∨ OnlyStop cfg p f))

/-- The function may begin: its dialog is open, or nothing else stops the machine if it does. -/
def Granted (cfg : PageCfg) (p : Page) (f : UInt16) : Prop :=
  (∃ d, p.dialog = some d ∧ d.funIndex = f) ∨
    (p.dialog = none ∧ (cfg.isStop f → OnlyStop cfg p f))

/-- The flag was computed, at least when the buttons are connected. -/
def Flagged (cfg : PageCfg) (p p' : Page) : Prop :=
  (∀ b ∈ p.uiBtStatus, b.connected) → p'.haveStopCard = p'.isStopCard cfg

theorem onStatChange_flagged {q : Page} {bt : ButtonStatus} (hb : q.getUIBtStatus f = some bt)
    (hc : bt.connected) : (q.onStatChange cfg f).haveStopCard = (q.onStatChange cfg f).isStopCard cfg := by
  simp only [onStatChange, hb, Option.any_some, hc, if_true]
  rfl

/-- The flag is computed if the button that was set is connected. -/
theorem haveStopCard_setShow {bt : ButtonStatus} (hb : p.getUIBtStatus f = some bt) (status : Int) :
    (p.setShow cfg f status).haveStopCard =
      if bt.connected then (p.setShow cfg f status).isStopCard cfg else p.haveStopCard := by
  have hset : (updateFirst (fun b => b.funIndex == f) (fun b => { b with showStatus := status })
      p.uiBtStatus).find? (fun b => b.funIndex == f) = some { bt with showStatus := status } := by
    rw [find?_updateFirst (by intro b; rfl)]
    exact congrArg _ hb
  simp only [setShow, onStatChange, getUIBtStatus, hset, Option.any_some]
  rfl

theorem setShow_flagged {q : Page} {bt : ButtonStatus} (hq : q.uiBtStatus = p.uiBtStatus)
    (hb : p.getUIBtStatus f = some bt) (status : Int) : Flagged cfg p (q.setShow cfg f status) := by
  intro hall
  have hqb : q.getUIBtStatus f = some bt := by rwa [getUIBtStatus, hq]
  rw [haveStopCard_setShow hqb, if_pos (hall bt (List.mem_of_find?_eq_some hb))]

inductive Outcome (cfg : PageCfg) (p p' : Page) : Prop
  | keep (buttons : p'.uiBtStatus = p.uiBtStatus)
      (dialog : ∀ d, p'.dialog = some d →
        (∃ d₀, p.dialog = some d₀ ∧ d.funIndex = d₀.funIndex) ∨ Opens cfg p d.funIndex)
      (stopped : p'.haveStopCard = p.haveStopCard ∨ Flagged cfg p p')
  | ended (f : UInt16) (buttons : p'.uiBtStatus = p.shown f 1) (dialog : p'.dialog = p.dialog)
      (stopped : Flagged cfg p p')
  | begun (f : UInt16) (key : f ∈ keyFuns cfg) (card : isCardFun f) (granted : Granted cfg p f)
      (buttons : p'.uiBtStatus = p.shown f 0) (dialog : p'.dialog = p.dialog)
      (stopped : Flagged cfg p p')

/-- The event is carried out, with one of the outcomes. -/
def Runs (cfg : PageCfg) (p : Page) (r : Option Page) : Prop :=
  ∃ p', r = some p' ∧ Outcome cfg p p'

/-- Nothing that concerns the buttons changes. -/
theorem Runs.frame (hb : p'.uiBtStatus = p.uiBtStatus) (hd : p'.dialog = p.dialog)
    (hs : p'.haveStopCard = p.haveStopCard) : Runs cfg p (some p') := by
  refine ⟨p', rfl, .keep hb ?_ (.inl hs)⟩
  intro d h
  rw [hd] at h
  exact .inl ⟨d, h, rfl⟩

theorem Runs.refl : Runs cfg p (some p) := .frame rfl rfl rfl

/-- No outcome changes which buttons there are. -/
theorem Outcome.funs (h : Outcome cfg p p') :
    p'.uiBtStatus.map (·.funIndex) = p.uiBtStatus.map (·.funIndex) := by
  cases h with
  | keep buttons _ _ => rw [buttons]
  | ended f buttons _ _ => rw [buttons, map_shown]
  | begun f _ _ _ buttons _ _ => rw [buttons, map_shown]

/-- Showing the page afterwards changes nothing. -/
theorem Runs.showPage (h : Tidy cfg p) (hr : Runs cfg p (some p')) :
    Runs cfg p (some (p'.showPage cfg)) := by
  obtain ⟨_, he, ho⟩ := hr
  cases he
  rw [showPage_eq (ho.funs.trans h.funs)]
  exact ⟨_, rfl, ho⟩

theorem cardButton_runs (hm : cfg.isMultipleStopStatus = false) (h : Tidy cfg p)
    (hd : p.dialog = none) (hf : f ∈ keyFuns cfg) (hc : isCardFun f) (card : Option QString) :
    Runs cfg p (p.cardButton cfg f card) := by
  obtain ⟨bt, hbt, rfl⟩ := exists_button h.funs hf
  obtain ⟨key, hkey, hstop⟩ := exists_key hf
  simp only [cardButton, hbt, ButtonStatus.getKeyInfo, hkey, Option.bind_eq_bind, Option.bind_some]
  split
  · exact .refl
  · next hck =>
    cases card with
    | none => exact .refl
    | some cardNo =>
      apply Runs.showPage h
      split
      · exact ⟨_, rfl, .ended _ rfl rfl (setShow_flagged rfl hbt 1)⟩
      · next hs =>
        refine ⟨_, rfl, .begun _ hf hc (.inr ⟨hd, ?_⟩) rfl rfl (setShow_flagged rfl hbt 0)⟩
        intro hst
        refine OnlyStop.of_check hm ?_ (by simpa using hs)
        rw [← hstop, hst] at hck
        simpa using hck

theorem funButton23_runs (hm : cfg.isMultipleStopStatus = false) (h : Tidy cfg p)
    (hd : p.dialog = none) (hf : f ∈ keyFuns cfg) (hc : isCardFun f) (card : Option QString) :
    Runs cfg p (p.funButton23 cfg f card) := by
  obtain ⟨bt, hbt, rfl⟩ := exists_button h.funs hf
  simp only [funButton23, hbt, Option.bind_eq_bind, Option.bind_some]
  split
  · exact .refl
  · next hck =>
    cases card with
    | none => exact .refl
    | some cardNo =>
      apply Runs.showPage h
      split
      · exact ⟨_, rfl, .ended _ rfl rfl (setShow_flagged rfl hbt 1)⟩
      · next hs =>
        refine ⟨_, rfl, .begun _ hf hc (.inr ⟨hd, ?_⟩) rfl rfl (setShow_flagged rfl hbt 0)⟩
        intro _
        exact OnlyStop.of_check hm (by simpa using hck) (by simpa using hs)

theorem loading_frame (name : QString) :
    (p.loading cfg name).2.uiBtStatus = p.uiBtStatus ∧
      (p.loading cfg name).2.haveStopCard = p.haveStopCard := by
  unfold loading
  split
  · exact ⟨rfl, rfl⟩
  · split <;> exact ⟨rfl, rfl⟩

theorem faultButton_runs (hm : cfg.isMultipleStopStatus = false) (h : Tidy cfg p)
    (hf : f ∈ keyFuns cfg) (hc : isCardFun f) : Runs cfg p (p.faultButton cfg f) := by
  obtain ⟨bt, hbt, rfl⟩ := exists_button h.funs hf
  obtain ⟨key, hkey, hstop⟩ := exists_key hf
  simp only [faultButton, hbt, ButtonStatus.getKeyInfo, hkey, Option.bind_eq_bind, Option.bind_some]
  split
  · exact .refl
  · next hck =>
    refine ⟨_, rfl, .keep (loading_frame bt.name).1 ?_ (.inl (loading_frame bt.name).2)⟩
    intro d hd
    cases hd
    refine .inr ⟨hf, hc, .inr ?_⟩
    intro (hst : cfg.isStop bt.funIndex)
    -- the check passes a fault that is already begun, so that it can be ended
    cases hs : bt.isShowStart with
    | true => exact .inl ⟨bt, hbt, hs⟩
    | false =>
      refine .inr (OnlyStop.of_check hm ?_ hs)
      rw [← hstop, hst] at hck
      simpa using hck

theorem funButton30_runs (h : Tidy cfg p) (hf : f ∈ keyFuns cfg) (card : Option QString) :
    Runs cfg p (p.funButton30 cfg f card) := by
  obtain ⟨bt, hbt, rfl⟩ := exists_button h.funs hf
  obtain ⟨key, hkey, -⟩ := exists_key hf
  simp only [funButton30, hbt, ButtonStatus.getKeyInfo, hkey, Option.bind_eq_bind, Option.bind_some]
  split
  · exact .refl
  · cases card with
    | none => exact .refl
    | some cardNo => exact .frame rfl rfl rfl

theorem dutyButton_runs (h : Tidy cfg p) (hf : f ∈ keyFuns cfg) (card : Option QString) :
    Runs cfg p (p.dutyButton f card) := by
  obtain ⟨bt, hbt, -⟩ := exists_button h.funs hf
  simp only [dutyButton, hbt, Option.bind_eq_bind, Option.bind_some]
  cases card with
  | none => exact .refl
  | some cardNo => exact .frame rfl rfl rfl

theorem funButton36_runs (h : Tidy cfg p) (hf : f ∈ keyFuns cfg) (hk : f.toNat = 36) :
    Runs cfg p (p.funButton36 cfg f) := by
  obtain rfl : f = 36 := UInt16.toNat_inj.mp hk
  obtain ⟨bt, hbt, -⟩ := exists_button h.funs hf
  simp only [funButton36, hbt, Option.bind_eq_bind, Option.bind_some]
  split
  · refine ⟨_, rfl, .keep rfl ?_ (.inl rfl)⟩
    intro d hd
    cases hd
    exact .inr ⟨hf, rfl, .inl rfl⟩
  · exact .showPage h .refl

theorem bindButton_runs (h : Tidy cfg p) (hf : f ∈ keyFuns cfg) (card : Option QString) :
    Runs cfg p (p.bindButton cfg f card) := by
  obtain ⟨bt, hbt, -⟩ := exists_button h.funs hf
  simp only [bindButton, hbt, Option.bind_eq_bind, Option.bind_some]
  cases card with
  | none => exact .refl
  | some cardNo =>
    have hr : Runs cfg p (some (p.onStatChange cfg f)) :=
      ⟨_, rfl, .keep rfl (fun d hd => .inl ⟨d, hd, rfl⟩) (.inr fun hall =>
        onStatChange_flagged hbt (hall bt (List.mem_of_find?_eq_some hbt)))⟩
    exact hr.showPage h

theorem otherButton_runs (h : Tidy cfg p) (hf : f ∈ keyFuns cfg) :
    Runs cfg p (p.otherButton f) := by
  obtain ⟨bt, hbt, -⟩ := exists_button h.funs hf
  simp only [otherButton, hbt, Option.bind_eq_bind, Option.bind_some]
  exact .refl

theorem onKey_runs (hm : cfg.isMultipleStopStatus = false) (h : Tidy cfg p)
    (hd : p.dialog = none) {key : SetKeyInfo} (hf : key.funIndex ∈ keyFuns cfg)
    (card : Option QString) : Runs cfg p (p.onKey cfg key card) := by
  have card_fun : ∀ {n}, key.funIndex.toNat = n →
      n ∈ [21, 22, 23, 24, 25, 26, 27, 28, 29, 31, 32, 36, 39, 44, 47] →
        isCardFun key.funIndex := by
    intro n hk hn
    rw [isCardFun, hk]
    exact List.contains_iff_mem.mpr hn
  unfold onKey
  split
  all_goals rename_i hk
  all_goals first
    | exact cardButton_runs hm h hd hf (card_fun hk (by decide)) card
    | exact funButton23_runs hm h hd hf (card_fun hk (by decide)) card
    | exact faultButton_runs hm h hf (card_fun hk (by decide))
    | exact funButton30_runs h hf card
    | exact dutyButton_runs h hf card
    | exact funButton36_runs h hf hk
    | exact bindButton_runs h hf card
    | exact otherButton_runs h hf
    | exact .refl

theorem click_runs (hm : cfg.isMultipleStopStatus = false) (h : Tidy cfg p)
    (hd : p.dialog = none) (index : Nat) (card : Option QString) :
    Runs cfg p (p.click cfg index card) := by
  unfold click
  split
  · split
    · exact .refl
    · next key hkey =>
      exact onKey_runs hm h hd (List.mem_map_of_mem (List.mem_of_getElem? hkey)) card
  · exact .refl

theorem btStart_runs (h : Tidy cfg p) {d : Dialog} (hd : p.dialog = some d)
    (card : Option QString) : Runs cfg p (p.btStart cfg d.funIndex card) := by
  obtain ⟨hf, hc⟩ := h.dialog d hd
  obtain ⟨bt, hbt, hbf⟩ := exists_button h.funs hf
  obtain ⟨key, hkey, -⟩ := exists_key hf
  simp only [btStart, hbt, ButtonStatus.getKeyInfo, hbf, hkey, Option.bind_eq_bind,
    Option.bind_some]
  split
  · exact .refl
  · cases card with
    | none => exact .refl
    | some cardNo =>
      exact ⟨_, rfl, .begun _ hf hc (.inl ⟨d, hd, rfl⟩) rfl rfl (setShow_flagged rfl hbt 0)⟩

theorem btEnd_runs (h : Tidy cfg p) (hf : f ∈ keyFuns cfg) (mList : List FaultItem)
    (card : Option QString) : Runs cfg p (p.btEnd cfg f mList card) := by
  obtain ⟨bt, hbt, hbf⟩ := exists_button h.funs hf
  obtain ⟨key, hkey, -⟩ := exists_key hf
  simp only [btEnd, hbt, ButtonStatus.getKeyInfo, hbf, hkey, Option.bind_eq_bind, Option.bind_some]
  split
  · exact .refl
  · split
    · exact .refl
    · cases card with
      | none => exact .refl
      | some cardNo => exact ⟨_, rfl, .ended _ rfl rfl (setShow_flagged rfl hbt 1)⟩

theorem btClose_runs (h : Tidy cfg p) (hf : f ∈ keyFuns cfg) (card : Option QString) :
    Runs cfg p (p.btClose cfg f card) := by
  obtain ⟨bt, hbt, hbf⟩ := exists_button h.funs hf
  obtain ⟨key, hkey, -⟩ := exists_key hf
  simp only [btClose, hbt, ButtonStatus.getKeyInfo, hbf, hkey, Option.bind_eq_bind,
    Option.bind_some]
  split
  · exact .refl
  · cases card with
    | none => exact .refl
    | some cardNo => exact ⟨_, rfl, .ended _ rfl rfl (setShow_flagged rfl hbt 1)⟩

theorem itemClicked_runs (h : Tidy cfg p) {mList : List FaultItem}
    (hd : p.dialog = some (.fun24fsgz f mList)) (row : Nat) (answer : FaultAnswer)
    (cardNo : QString) : Runs cfg p (p.itemClicked cfg f mList row answer cardNo) := by
  obtain ⟨bt, hbt, -⟩ : ∃ b, p.getUIBtStatus f = some b ∧ b.funIndex = f :=
    exists_button h.funs (h.dialog _ hd).1
  simp only [itemClicked, hbt, Option.bind_eq_bind, Option.bind_some]
  split
  · split
    · exact .refl
    · refine ⟨_, rfl, .keep (by split <;> rfl) ?_ (.inl (by split <;> rfl))⟩
      intro d hd'
      cases hd'
      exact .inl ⟨_, hd, rfl⟩
  · exact .refl

/-- **What an event can do.** It is always carried out, and with one of the outcomes. -/
theorem step_runs (hm : cfg.isMultipleStopStatus = false) (h : Tidy cfg p) (e : Event) :
    Runs cfg p (p.step cfg e) := by
  cases e with
  | upPage =>
    simp only [step]
    split
    · exact .refl
    · apply Runs.showPage h
      exact .frame rfl rfl rfl
  | downPage =>
    simp only [step]
    split
    · exact .refl
    · apply Runs.showPage h
      split
      · exact .frame rfl rfl rfl
      · exact .refl
  | click index card =>
    simp only [step]
    split
    · exact .refl
    · next hd => exact click_runs hm h (by simpa using hd) index card
  | start card =>
    cases hd : p.dialog with
    | none =>
      simp only [step, hd]
      exact .refl
    | some d =>
      simp only [step, hd]
      exact btStart_runs h hd card
  | close card =>
    cases hd : p.dialog with
    | none =>
      simp only [step, hd]
      exact .refl
    | some d =>
      have hf := (h.dialog d hd).1
      cases d with
      | fun24fsgz f mList =>
        simp only [step, hd]
        exact btEnd_runs h hf mList card
      | fun36tj f =>
        simp only [step, hd]
        exact btClose_runs h hf card
  | item row answer cardNo =>
    simp only [step]
    split
    · next f mList hd => exact itemClicked_runs h hd row answer cardNo
    · exact .refl
  | exit =>
    simp only [step]
    split
    · apply Runs.showPage h
      refine ⟨_, rfl, .keep rfl ?_ (.inl rfl)⟩
      intro d hd
      cases hd
    · exact .refl
  | shop act => exact .frame rfl rfl rfl

/-! ## The invariants -/

theorem mem_shown {status : Int} {b : ButtonStatus} (h : b ∈ p.shown f status) :
    b ∈ p.uiBtStatus ∨ (b.funIndex = f ∧ b.showStatus = status) := by
  obtain hb | ⟨a, ha, rfl⟩ := mem_updateFirst h
  · exact .inl hb
  · exact .inr ⟨by simpa using List.find?_some ha, rfl⟩

theorem leading_shown (h : Tidy cfg p) (status : Int) :
    Leading ButtonStatus.funIndex ButtonStatus.isShowStart (p.shown f status) := by
  unfold shown
  apply h.leading.updateFirst
  intro b
  rfl

theorem Outcome.tidy (h : Tidy cfg p) (ho : Outcome cfg p p') : Tidy cfg p' := by
  have hfuns := ho.funs.trans h.funs
  cases ho with
  | keep buttons dialog _ =>
    refine ⟨hfuns, buttons ▸ h.leading, buttons ▸ h.isCardFun, ?_⟩
    intro d hd
    obtain ⟨d₀, hd₀, hf⟩ | ⟨hk, hc, -⟩ := dialog d hd
    · rw [hf]
      exact h.dialog d₀ hd₀
    · exact ⟨hk, hc⟩
  | ended f buttons dialog _ =>
    refine ⟨hfuns, buttons ▸ leading_shown h 1, ?_, dialog ▸ h.dialog⟩
    intro b hb hs
    rw [buttons] at hb
    obtain hb | ⟨-, hone⟩ := mem_shown hb
    · exact h.isCardFun b hb hs
    · simp [ButtonStatus.isShowStart, hone] at hs
  | begun f _ card _ buttons dialog _ =>
    refine ⟨hfuns, buttons ▸ leading_shown h 0, ?_, dialog ▸ h.dialog⟩
    intro b hb hs
    rw [buttons] at hb
    obtain hb | ⟨hbf, -⟩ := mem_shown hb
    · exact h.isCardFun b hb hs
    · rw [hbf]
      exact card

/-- Whatever stops the machine is one function, and if a dialog of such a function is open, then it
is that one. -/
structure Exclusive (cfg : PageCfg) (p : Page) : Prop where
  only : ∃ f, OnlyStop cfg p f
  dialog : ∀ d, p.dialog = some d → cfg.isStop d.funIndex → OnlyStop cfg p d.funIndex

theorem OnlyStop.congr {g : UInt16} (h : OnlyStop cfg p g) (hb : p'.uiBtStatus = p.uiBtStatus) :
    OnlyStop cfg p' g := by
  intro b hb'
  rw [hb] at hb'
  exact h b hb'

theorem OnlyStop.ended {g : UInt16} (h : OnlyStop cfg p g) (hb : p'.uiBtStatus = p.shown f 1) :
    OnlyStop cfg p' g := by
  intro b hb' hs
  rw [hb] at hb'
  obtain hb' | ⟨-, hone⟩ := mem_shown hb'
  · exact h b hb' hs
  · simp [ButtonStatus.isStopStart, ButtonStatus.isShowStart, hone] at hs

theorem isStopStart_iff {b : ButtonStatus} :
    b.isStopStart cfg ↔ b.isShowStart ∧ cfg.isStop b.funIndex := by
  simp [ButtonStatus.isStopStart]

theorem OnlyStop.begun {g : UInt16} (h : OnlyStop cfg p g) (hb : p'.uiBtStatus = p.shown f 0)
    (hg : cfg.isStop f → f = g) : OnlyStop cfg p' g := by
  intro b hb' hs
  rw [hb] at hb'
  obtain hb' | ⟨hbf, -⟩ := mem_shown hb'
  · exact h b hb' hs
  · rw [isStopStart_iff, hbf] at hs
    rw [hbf]
    exact hg hs.2

/-- In a guarded configuration, nothing but 36 stops the machine if 36 can. -/
theorem Tidy.onlyStop_36 (h : Tidy cfg p) (hu : unguarded cfg = false) (hk : 36 ∈ keyFuns cfg)
    (hs : cfg.isStop 36) : OnlyStop cfg p 36 := by
  intro b hb hstop
  obtain ⟨hstart, hst⟩ := isStopStart_iff.mp hstop
  by_contra hne
  have hkey : b.funIndex ∈ keyFuns cfg := by
    rw [← h.funs]
    exact List.mem_map_of_mem hb
  have hu' : unguarded cfg = true := by
    simp only [unguarded, Bool.and_eq_true, List.contains_iff_mem, List.any_eq_true]
    exact ⟨⟨hk, hs⟩, b.funIndex, hkey, ⟨by simpa using hne, h.isCardFun b hb hstart⟩, hst⟩
  rw [hu] at hu'
  cases hu'

theorem Outcome.exclusive (h : Tidy cfg p) (hu : unguarded cfg = false) (hx : Exclusive cfg p)
    (ho : Outcome cfg p p') : Exclusive cfg p' := by
  obtain ⟨g, hg⟩ := hx.only
  cases ho with
  | keep buttons dialog _ =>
    refine ⟨⟨g, hg.congr buttons⟩, ?_⟩
    intro d hd hs
    apply OnlyStop.congr _ buttons
    obtain ⟨d₀, hd₀, hf⟩ | ⟨hk, -, h36 | hopen⟩ := dialog d hd
    · rw [hf] at hs ⊢
      exact hx.dialog d₀ hd₀ hs
    · rw [h36] at hk hs ⊢
      exact h.onlyStop_36 hu hk hs
    · obtain ⟨b, hb, hstart⟩ | honly := hopen hs
      · -- the function of the dialog is begun, so it is the one
        have hbf : b.funIndex = d.funIndex := by simpa using List.find?_some hb
        have := hg b (List.mem_of_find?_eq_some hb)
          (isStopStart_iff.mpr ⟨hstart, by rwa [hbf]⟩)
        rw [← hbf, this]
        exact hg
      · exact honly
  | ended f buttons dialog _ =>
    refine ⟨⟨g, hg.ended buttons⟩, ?_⟩
    intro d hd hs
    rw [dialog] at hd
    exact (hx.dialog d hd hs).ended buttons
  | begun f _ _ granted buttons dialog _ =>
    by_cases hst : cfg.isStop f
    · have hf : OnlyStop cfg p f := by
        obtain ⟨d, hd, rfl⟩ | ⟨-, honly⟩ := granted
        · exact hx.dialog d hd hst
        · exact honly hst
      refine ⟨⟨f, hf.begun buttons (fun _ => rfl)⟩, ?_⟩
      intro d hd hs
      rw [dialog] at hd
      obtain ⟨d', hd', rfl⟩ | ⟨hnone, -⟩ := granted
      · rw [hd] at hd'
        cases hd'
        exact hf.begun buttons (fun _ => rfl)
      · rw [hd] at hnone
        cases hnone
    · refine ⟨⟨g, hg.begun buttons (fun hs => absurd hs hst)⟩, ?_⟩
      intro d hd hs
      rw [dialog] at hd
      exact (hx.dialog d hd hs).begun buttons (fun hs => absurd hs hst)

theorem Exclusive.length_stopStarts_le (h : Tidy cfg p) (hx : Exclusive cfg p) :
    (p.stopStarts cfg).length ≤ 1 := by
  obtain ⟨g, hg⟩ := hx.only
  refine h.leading.length_le_one ?_ hg
  intro b hb
  exact (isStopStart_iff.mp hb).1

theorem AllEnd.not_isShowStart (h : AllEnd cfg p) {b : ButtonStatus} (hb : b ∈ p.uiBtStatus) :
    b.isShowStart = false := by
  have hone : b.showStatus = 1 := by simpa [ButtonStatus.isShowEnd] using h.isShowEnd b hb
  simp [ButtonStatus.isShowStart, hone]

theorem AllEnd.tidy (h : AllEnd cfg p) : Tidy cfg p where
  funs := h.funs
  leading := by
    rw [Leading, List.pairwise_iff_getElem]
    intro i j hi hj _ hs
    rw [h.not_isShowStart (List.getElem_mem hj)] at hs
    cases hs
  isCardFun b hb hs := by
    rw [h.not_isShowStart hb] at hs
    cases hs
  dialog d hd := by
    rw [h.dialog] at hd
    cases hd

theorem AllEnd.onlyStop (h : AllEnd cfg p) (g : UInt16) : OnlyStop cfg p g := by
  intro b hb hs
  rw [ButtonStatus.isStopStart, h.not_isShowStart hb] at hs
  cases hs

theorem AllEnd.exclusive (h : AllEnd cfg p) : Exclusive cfg p := by
  refine ⟨⟨0, h.onlyStop 0⟩, ?_⟩
  intro d hd
  rw [h.dialog] at hd
  cases hd

/-- In a guarded configuration every run is carried out, and it keeps to one function that stops the
machine. -/
theorem run_exclusive (hm : cfg.isMultipleStopStatus = false) (hu : unguarded cfg = false)
    (h : Tidy cfg p) (hx : Exclusive cfg p) (es : List Event) :
    ∃ p', run (step cfg) p es = some p' ∧ Tidy cfg p' ∧ Exclusive cfg p' := by
  refine run_total ?_ ⟨h, hx⟩ es
  rintro q e ⟨hq, hqx⟩
  obtain ⟨q', hs, ho⟩ := step_runs hm hq e
  exact ⟨q', hs, ho.tidy hq, ho.exclusive hq hu hqx⟩

/-! ## The run that breaks it -/

theorem step_upPage (h : p.uiBtStatus.map (·.funIndex) = keyFuns cfg) (hd : p.dialog = none) :
    p.step cfg .upPage = some { p with pageIndex := p.pageIndex - 1 } := by
  simp only [step]
  rw [if_neg (by simp [hd])]
  exact congrArg some (showPage_eq h)

theorem step_downPage (h : p.uiBtStatus.map (·.funIndex) = keyFuns cfg) (hd : p.dialog = none)
    (hlt : p.pageIndex < cfg.pageSum) :
    p.step cfg .downPage = some { p with pageIndex := p.pageIndex + 1 } := by
  simp only [step]
  rw [if_neg (by simp [hd]), downPage, if_pos hlt]
  exact congrArg some (showPage_eq h)

/-- Every page of buttons can be reached. -/
theorem exists_goto (h : p.uiBtStatus.map (·.funIndex) = keyFuns cfg) (hd : p.dialog = none)
    {n : Nat} (hn : n ≤ cfg.pageSum) :
    ∃ es, run (step cfg) p es = some { p with pageIndex := n } := by
  induction n with
  | zero =>
    -- up to the first page, by induction on the page
    obtain ⟨i, hi⟩ : ∃ i, p.pageIndex = i := ⟨_, rfl⟩
    induction i generalizing p with
    | zero =>
      refine ⟨[], ?_⟩
      rw [← hi]
      rfl
    | succ i ih =>
      obtain ⟨es, hes⟩ := ih (p := { p with pageIndex := i }) h hd rfl
      refine ⟨.upPage :: es, run_cons_eq_some.mpr ⟨_, step_upPage h hd, ?_⟩⟩
      rw [hi]
      exact hes
  | succ n ih =>
    obtain ⟨es, hes⟩ := ih (by omega)
    refine ⟨es ++ [.downPage], run_concat_eq_some.mpr ⟨_, hes, ?_⟩⟩
    exact step_downPage h hd hn

theorem step_click (hd : p.dialog = none) (index : Nat) (card : Option QString) :
    p.step cfg (.click index card) = p.click cfg index card := by
  simp only [step]
  rw [if_neg (by simp [hd])]

/-- Every key can be pressed: turn to its page and press its button. -/
theorem exists_press (h : p.uiBtStatus.map (·.funIndex) = keyFuns cfg) (hd : p.dialog = none)
    (hf : f ∈ keyFuns cfg) (card : Option QString) :
    ∃ es n key, key.funIndex = f ∧
      ∀ q, ({ p with pageIndex := n } : Page).onKey cfg key card = some q →
        run (step cfg) p es = some q := by
  obtain ⟨key, hkey, hkf⟩ := List.mem_map.mp hf
  obtain ⟨j, hj⟩ := List.mem_iff_getElem?.mp hkey
  have hlt : j < cfg.pdFuncCfg.setKeyList.length := (List.getElem?_eq_some_iff.mp hj).1
  have hpage : j / PageCfg.pageSize ≤ cfg.pageSum := Nat.div_le_div_right hlt.le
  obtain ⟨es, hes⟩ := exists_goto h hd hpage
  refine ⟨es ++ [.click (j % PageCfg.pageSize) card], j / PageCfg.pageSize, key, hkf, ?_⟩
  intro q hq
  refine run_concat_eq_some.mpr ⟨_, hes, ?_⟩
  have hmod : j % PageCfg.pageSize < PageCfg.pageSize := Nat.mod_lt j (by decide)
  have hidx : j / PageCfg.pageSize * PageCfg.pageSize + j % PageCfg.pageSize = j :=
    Nat.div_add_mod' j PageCfg.pageSize
  rw [step_click (p := { p with pageIndex := j / PageCfg.pageSize }) hd, click, if_pos hmod, hidx,
    hj]
  exact hq

/-- The function has begun, and nothing else that matters for 36 has changed. -/
def Begins (p : Page) (f : UInt16) (q : Page) : Prop :=
  q.uiBtStatus = p.shown f 0 ∧ q.dialog = p.dialog ∧ q.tjLoading = p.tjLoading

theorem btStart_begins {bt : ButtonStatus} (hb : p.getUIBtStatus f = some bt)
    (hs : bt.isShowStart = false) (hf : f ∈ keyFuns cfg) :
    ∃ q, p.btStart cfg f (some []) = some q ∧ Begins p f q := by
  have hbf : bt.funIndex = f := by simpa using List.find?_some hb
  obtain ⟨key, hkey, -⟩ := exists_key hf
  simp only [btStart, hb, ButtonStatus.getKeyInfo, hbf, hkey, hs, Option.bind_eq_bind,
    Option.bind_some]
  exact ⟨_, rfl, rfl, rfl, rfl⟩

theorem AllEnd.otherStopCardCheck_eq (h : AllEnd cfg p) (bt : ButtonStatus) :
    p.otherStopCardCheck cfg bt = false := by
  have hother : p.isOtherStopCard cfg bt = false := by
    apply List.any_eq_false.mpr
    intro b hb
    simp [ButtonStatus.isStopStart, h.not_isShowStart hb]
  simp [otherStopCardCheck, hother]

theorem AllEnd.exists_idle (h : AllEnd cfg p) (hf : f ∈ keyFuns cfg) :
    ∃ b, p.getUIBtStatus f = some b ∧ b.funIndex = f ∧ b.isShowStart = false := by
  obtain ⟨b, hb, hbf⟩ := exists_button h.funs hf
  exact ⟨b, hb, hbf, h.not_isShowStart (List.mem_of_find?_eq_some hb)⟩

/-- The page shows what it should after a function was begun. -/
theorem Begins.showPage {q : Page} (h : AllEnd cfg p) (hq : Begins p f q) :
    Begins p f (q.showPage cfg) := by
  rwa [showPage_eq]
  rw [hq.1, map_shown]
  exact h.funs

theorem AllEnd.cardButton_begins (h : AllEnd cfg p) (hf : f ∈ keyFuns cfg) :
    ∃ q, p.cardButton cfg f (some []) = some q ∧ Begins p f q := by
  obtain ⟨bt, hb, rfl, hs⟩ := h.exists_idle hf
  obtain ⟨key, hkey, -⟩ := exists_key hf
  simp only [cardButton, hb, ButtonStatus.getKeyInfo, hkey, h.otherStopCardCheck_eq, brushCard, hs,
    Option.bind_eq_bind, Option.bind_some, Bool.and_false, Bool.false_eq_true, if_false]
  exact ⟨_, rfl, Begins.showPage h ⟨rfl, rfl, rfl⟩⟩

theorem AllEnd.funButton23_begins (h : AllEnd cfg p) (hf : f ∈ keyFuns cfg) :
    ∃ q, p.funButton23 cfg f (some []) = some q ∧ Begins p f q := by
  obtain ⟨bt, hb, rfl, hs⟩ := h.exists_idle hf
  simp only [funButton23, hb, h.otherStopCardCheck_eq, hs, Option.bind_eq_bind, Option.bind_some]
  exact ⟨_, rfl, Begins.showPage h ⟨rfl, rfl, rfl⟩⟩

theorem AllEnd.faultButton_opens (h : AllEnd cfg p) (hf : f ∈ keyFuns cfg) :
    ∃ q mList, p.faultButton cfg f = some q ∧ q.uiBtStatus = p.uiBtStatus ∧
      q.dialog = some (.fun24fsgz f mList) ∧ q.tjLoading = p.tjLoading := by
  obtain ⟨bt, hb, rfl, -⟩ := h.exists_idle hf
  obtain ⟨key, hkey, -⟩ := exists_key hf
  simp only [faultButton, hb, ButtonStatus.getKeyInfo, hkey, h.otherStopCardCheck_eq,
    Option.bind_eq_bind, Option.bind_some, Bool.and_false, Bool.false_eq_true, if_false]
  refine ⟨_, _, rfl, (loading_frame bt.name).1, rfl, ?_⟩
  have hshop : (p.loading cfg bt.name).2.shop = p.shop := by
    unfold loading
    split
    · rfl
    · split <;> rfl
  simp only [tjLoading, hshop]

theorem onKey_faultButton {key : SetKeyInfo} (hk : key.funIndex.toNat ∈ [24, 25, 26])
    (card : Option QString) : p.onKey cfg key card = p.faultButton cfg key.funIndex := by
  simp only [List.mem_cons, List.not_mem_nil, or_false] at hk
  obtain hk | hk | hk := hk <;> simp only [onKey, hk]

theorem onKey_funButton36 {key : SetKeyInfo} (hk : key.funIndex = 36) (card : Option QString) :
    p.onKey cfg key card = p.funButton36 cfg 36 := by
  rw [onKey, hk]
  rfl

/-- With nothing begun, a fault begins in its dialog, which is then closed. -/
theorem AllEnd.faultButton_begins (h : AllEnd cfg p) (hf : f ∈ keyFuns cfg) :
    ∃ q es r, p.faultButton cfg f = some q ∧ run (step cfg) q es = some r ∧ Begins p f r := by
  obtain ⟨q, mList, hq, hqb, hqd, hqt⟩ := h.faultButton_opens hf
  obtain ⟨bt, hb, -, hs⟩ := h.exists_idle hf
  have hb' : q.getUIBtStatus f = some bt := by
    rw [getUIBtStatus, hqb]
    exact hb
  obtain ⟨r, hr, hrb, hrd, hrt⟩ := btStart_begins hb' hs hf
  have hbegins : Begins p f ({ r with dialog := none } : Page) := by
    refine ⟨?_, h.dialog.symm, hrt.trans hqt⟩
    rw [shown, ← hqb]
    exact hrb
  refine ⟨q, [.start (some []), .exit], _, hq, run_cons_eq_some.mpr ⟨r, ?_, ?_⟩, hbegins.showPage h⟩
  · simp only [step, hqd]
    exact hr
  · rw [hqd] at hrd
    simp [run, step, hrd]

/-- With nothing begun, any function but 36 can be begun. -/
theorem AllEnd.exists_begin (h : AllEnd cfg p) (hf : f ∈ keyFuns cfg) (hc : isCardFun f)
    (h36 : f ≠ 36) : ∃ es q, run (step cfg) p es = some q ∧ Begins p f q := by
  obtain ⟨es, n, key, rfl, hes⟩ := exists_press h.funs h.dialog hf (some [])
  have hp : AllEnd cfg ({ p with pageIndex := n } : Page) := ⟨h.funs, h.isShowEnd, h.dialog⟩
  by_cases hfault : key.funIndex.toNat ∈ [24, 25, 26]
  · obtain ⟨q, es', r, hq, hr, hb⟩ := hp.faultButton_begins hf
    rw [← onKey_faultButton hfault (some [])] at hq
    exact ⟨es ++ es', r, run_append_eq_some.mpr ⟨q, hes q hq, hr⟩, hb⟩
  · obtain ⟨q, hq, hb⟩ : ∃ q, ({ p with pageIndex := n } : Page).onKey cfg key (some []) = some q ∧
        Begins { p with pageIndex := n } key.funIndex q := by
      have hn : key.funIndex.toNat ∈ [21, 22, 23, 24, 25, 26, 27, 28, 29, 31, 32, 36, 39, 44, 47] :=
        List.contains_iff_mem.mp hc
      have h36' : key.funIndex.toNat ≠ 36 := fun he => h36 (UInt16.toNat_inj.mp he)
      unfold onKey
      split
      all_goals rename_i hk
      all_goals first
        | exact hp.cardButton_begins hf
        | exact hp.funButton23_begins hf
        | simp_all
    exact ⟨es, q, hes q hq, hb⟩

theorem two_le_length_stopStarts {a b : ButtonStatus} (ha : a ∈ p.uiBtStatus)
    (hb : b ∈ p.uiBtStatus) (hsa : a.isStopStart cfg) (hsb : b.isStopStart cfg)
    (hne : a.funIndex ≠ b.funIndex) : 2 ≤ (p.stopStarts cfg).length := by
  have hma : a ∈ p.stopStarts cfg := List.mem_filter.mpr ⟨ha, hsa⟩
  have hmb : b ∈ p.stopStarts cfg := List.mem_filter.mpr ⟨hb, hsb⟩
  match p.stopStarts cfg, hma, hmb with
  | [c], hma, hmb =>
    rw [List.mem_singleton.mp hma, List.mem_singleton.mp hmb] at hne
    exact absurd rfl hne
  | _ :: _ :: _, _, _ => simp

/-- **The missing check.** In an unguarded configuration two functions that stop the machine can be
begun together: first the other one, then 36. -/
theorem AllEnd.exists_two (h : AllEnd cfg p) (htj : p.tjLoading) (hu : unguarded cfg) :
    ∃ es q, run (step cfg) p es = some q ∧ 2 ≤ (q.stopStarts cfg).length := by
  simp only [unguarded, Bool.and_eq_true, List.contains_iff_mem, List.any_eq_true, bne_iff_ne] at hu
  obtain ⟨⟨hk36, hs36⟩, g, hg, ⟨hne, hcard⟩, hsg⟩ := hu
  obtain ⟨es, q, hq, hqb, hqd, hqt⟩ := h.exists_begin hg hcard hne
  have hqd : q.dialog = none := hqd.trans h.dialog
  have hqf : q.uiBtStatus.map (·.funIndex) = keyFuns cfg := by rw [hqb, map_shown, h.funs]
  obtain ⟨es', n, key, hkey, hes'⟩ := exists_press hqf hqd hk36 none
  obtain ⟨bt, hbt, hbf⟩ := exists_button hqf hk36
  have hbs : bt.isShowStart = false := by
    have hmem := List.mem_of_find?_eq_some hbt
    rw [hqb] at hmem
    obtain hmem | ⟨hbg, -⟩ := mem_shown hmem
    · exact h.not_isShowStart hmem
    · exact absurd (hbg.symm.trans hbf) hne
  -- the dialog of 36 opens and 36 is begun in it
  have hopen : ({ q with pageIndex := n } : Page).onKey cfg key none =
      some { q with pageIndex := n, dialog := some (.fun36tj 36) } := by
    have htq : ({ q with pageIndex := n } : Page).tjLoading = true := hqt.trans htj
    have hbt' : ({ q with pageIndex := n } : Page).getUIBtStatus 36 = some bt := hbt
    rw [onKey_funButton36 hkey, funButton36, hbt', htq]
    rfl
  obtain ⟨r, hr, hrb, -, -⟩ := btStart_begins
    (p := { q with pageIndex := n, dialog := some (.fun36tj 36) }) hbt hbs hk36
  refine ⟨es ++ (es' ++ [.start (some [])]), r, ?_, ?_⟩
  · exact run_append_eq_some.mpr ⟨q, hq, run_concat_eq_some.mpr ⟨_, hes' _ hopen, hr⟩⟩
  · obtain ⟨bg, hbg, hbgf⟩ := exists_button h.funs hg
    apply two_le_length_stopStarts (a := { bt with showStatus := 0 })
      (b := { bg with showStatus := 0 })
    · rw [hrb]
      exact mem_updateFirst_of_find hbt
    · rw [hrb]
      apply mem_updateFirst_of_not
      · rw [hqb]
        exact mem_updateFirst_of_find hbg
      · simpa [hbgf] using hne
    · exact isStopStart_iff.mpr ⟨rfl, by rwa [hbf]⟩
    · exact isStopStart_iff.mpr ⟨rfl, by rwa [hbgf]⟩
    · simpa [hbf, hbgf] using hne.symm

/-! ## The result -/

/-- A page with nothing begun, with reasons for defects and a product to be adjusted. -/
def fresh (cfg : PageCfg) : Page where
  uiBtStatus := readUIBtStatus cfg
  shop := { badCfg := fun _ => [[]], mainOrderCache := { orderBoyList := [{}] } }

theorem allEnd_fresh : AllEnd cfg (fresh cfg) where
  funs := by
    rw [fresh, readUIBtStatus, keyFuns, List.map_map]
    rfl
  isShowEnd b hb := by
    obtain ⟨key, -, rfl⟩ := List.mem_map.mp hb
    rfl
  dialog := rfl

/-- **One stop card at a time.** Whatever is pressed, at most one button whose function stops the
machine shows "start", exactly when the configuration does not let 36 stop the machine beside
another function with cards. -/
theorem exclusive_iff (hm : cfg.isMultipleStopStatus = false) :
    (∀ p, AllEnd cfg p → ∀ es, ∃ p', run (step cfg) p es = some p' ∧
      (p'.stopStarts cfg).length ≤ 1) ↔ unguarded cfg = false := by
  constructor
  · intro h
    by_contra hu
    obtain ⟨es, q, hq, htwo⟩ := allEnd_fresh.exists_two rfl (by simpa using hu)
    obtain ⟨p', hp', hone⟩ := h (fresh cfg) allEnd_fresh es
    rw [hq] at hp'
    cases hp'
    omega
  · intro hu p hp es
    obtain ⟨p', hr, ht, hx⟩ := run_exclusive hm hu hp.tidy hp.exclusive es
    exact ⟨p', hr, hx.length_stopStarts_le ht⟩

/-- Keys for the change of moulds and for the machine adjustment. -/
def moldAndAdjust (adjustStatus : UInt8) : PageCfg where
  pdFuncCfg :=
    { setKeyList := [{ funIndex := 21, status := 1 }, { funIndex := 36, status := adjustStatus }] }

theorem exclusive_iff_adjust_running :
    (moldAndAdjust 0).isMultipleStopStatus = false ∧
      ∀ p, AllEnd (moldAndAdjust 0) p → ∀ es, ∃ p', run (step (moldAndAdjust 0)) p es = some p' ∧
        (p'.stopStarts (moldAndAdjust 0)).length ≤ 1 :=
  ⟨by decide, (exclusive_iff (by decide)).mpr (by decide)⟩

/-- The mould is being changed, and the adjustment of the machine begins all the same. -/
theorem not_exclusive_mold_and_adjust :
    ¬ ∀ cfg : PageCfg, cfg.isMultipleStopStatus = false → ∀ p, AllEnd cfg p → ∀ es p',
      run (step cfg) p es = some p' → (p'.stopStarts cfg).length ≤ 1 := by
  intro h
  have hrun : (run (step (moldAndAdjust 1)) (fresh (moldAndAdjust 1))
      [.click 0 (some []), .click 1 none, .start (some [])]).any
        (fun q => decide (2 ≤ (q.stopStarts (moldAndAdjust 1)).length)) = true := by decide +kernel
  obtain ⟨q, hq, htwo⟩ := (Option.any_eq_true _ _).mp hrun
  have := h _ (by decide) _ allEnd_fresh _ q hq
  have := of_decide_eq_true htwo
  omega

/-! ## The stop flag -/

theorem Outcome.haveStopCard (ho : Outcome cfg p p') (hc : ∀ b ∈ p.uiBtStatus, b.connected)
    (h : p.haveStopCard = p.isStopCard cfg) : p'.haveStopCard = p'.isStopCard cfg := by
  cases ho with
  | keep buttons _ stopped =>
    obtain hs | hs := stopped
    · rw [hs, h, isStopCard, isStopCard, buttons]
    · exact hs hc
  | ended _ _ _ stopped => exact stopped hc
  | begun _ _ _ _ _ _ stopped => exact stopped hc

theorem connected_shown (hc : ∀ b ∈ p.uiBtStatus, b.connected) (status : Int) :
    ∀ b ∈ p.shown f status, b.connected := by
  intro b hb
  obtain hb | ⟨c, hf, rfl⟩ := mem_updateFirst hb
  · exact hc b hb
  · exact hc c (List.mem_of_find?_eq_some hf)

theorem Outcome.connected (ho : Outcome cfg p p') (hc : ∀ b ∈ p.uiBtStatus, b.connected) :
    ∀ b ∈ p'.uiBtStatus, b.connected := by
  cases ho with
  | keep buttons _ _ => rwa [buttons]
  | ended _ buttons _ _ =>
    rw [buttons]
    exact connected_shown hc 1
  | begun _ _ _ _ buttons _ _ =>
    rw [buttons]
    exact connected_shown hc 0

/-- `AppInfo::haveStopCard`, which keeps moulds from being counted, says in every state of every run
whether a function that stops the machine is begun. -/
theorem run_haveStopCard (hm : cfg.isMultipleStopStatus = false) (h : Tidy cfg p)
    (hc : ∀ b ∈ p.uiBtStatus, b.connected) (hs : p.haveStopCard = p.isStopCard cfg)
    (es : List Event) :
    ∃ p', run (step cfg) p es = some p' ∧ Tidy cfg p' ∧ (∀ b ∈ p'.uiBtStatus, b.connected) ∧
      p'.haveStopCard = p'.isStopCard cfg := by
  refine run_total ?_ ⟨h, hc, hs⟩ es
  rintro q e ⟨hq, hqc, hqs⟩
  obtain ⟨q', hstep, ho⟩ := step_runs hm hq e
  exact ⟨q', hstep, ho.tidy hq, ho.connected hqc, ho.haveStopCard hqc hqs⟩

end ProgrammingPath.Mes.Page
