import ProgrammingPath.Lib.Run

/-!
# The send queue of the Z-Wave server

A request goes into `_list_appsendata`, from there into `_list_zwsenddata`, and from there to `ZW_SendData`; its
callback comes after that, for `zw_sendrequest` when the time for an answer is over. One pass of `zserial_loop` takes
everything out of the first queue but hands on one entry only, and nobody stores the node in an entry.
`orderly_iff_single` says for which runs the requests are sent as they were made all the same.
-/

namespace ProgrammingPath.ZWave

open ProgrammingPath.Lib

/-! ## The queues -/

/-- Which call was made, and whether it got a callback. -/
inductive Kind
  | appsenddata (callback : Bool)
  | sendrequest (timeout : Nat) (callback : Bool)

/-- A call of `zw_appsenddata` or `zw_sendrequest`, and the byte that `malloc` leaves where the entry has its node. -/
structure Request where
  node : UInt8
  data : List UInt8
  kind : Kind
  malloced : UInt8
  length_lt : data.length < 256

/-- `struct zw_appsenddata_t` in the first queue, with the number of its request. -/
structure Item where
  id : Nat
  node : UInt8
  data : List UInt8
  kind : Kind

/-- `struct zw_appsenddata_t` in the second queue, with the entry it stands for as context. -/
structure ZwItem where
  node : UInt8
  data : List UInt8
  item : Item

/-- The timer of a `struct zw_sendreq_t`. -/
structure ReqTimer where
  id : Nat
  interval : Nat
  callback : Bool

/-- What is seen of a request: it is handed to `ZW_SendData`, or its callback is called. -/
inductive Event
  | sent (id : Nat) (node : UInt8) (data : List UInt8)
  | called (id : Nat) (status : Int)

/-- `struct ZSerial` and `_lock_zwsendata`, the newest entry of a list first, with the requests in the order in which
they were made, and what was seen, the newest event first. -/
structure Serial where
  appsendata : List Item
  zwsenddata : List ZwItem
  lock : Bool
  timers : List ReqTimer
  sendreq : List Nat
  made : List Request
  log : List Event

def Serial.init : Serial := ⟨[], [], false, [], [], [], []⟩

/-- The requests that a callback makes. It may go by everything that was seen. -/
abbrev Handler := List Event → List Request

/-- `zw_appsenddata`, and `zw_sendrequest`, which is on its list before that. -/
def Serial.request (s : Serial) (r : Request) : Serial :=
  let id := s.made.length
  { s with
    appsendata := ⟨id, r.malloced, r.data, r.kind⟩ :: s.appsendata
    sendreq :=
      match r.kind with
      | .appsenddata _ => s.sendreq
      | .sendrequest _ _ => id :: s.sendreq
    made := s.made ++ [r] }

/-- The callback of the user, if there is one. -/
def Serial.callUser (s : Serial) (h : Handler) (callback : Bool) (id : Nat) (status : Int) : Serial :=
  if callback then
    let log := .called id status :: s.log
    (h log).foldl Serial.request { s with log := log }
  else s

/-- `zw_appsenddata_loop`. The entry that the loop saw last goes on. -/
def Serial.appsenddataLoop (s : Serial) : Serial :=
  match s.appsendata.getLast? with
  | none => s
  | some item =>
    { s with appsendata := [], zwsenddata := ⟨item.node, item.data, item⟩ :: s.zwsenddata }

/-- `zw_senddata_callback`, and `zw_appsenddata_callback` for a request that waits for an answer. -/
def Serial.senddataCallback (s : Serial) (h : Handler) (clock : Nat) (item : Item) (status : Int) : Serial :=
  match item.kind with
  | .appsenddata callback => s.callUser h callback item.id status
  | .sendrequest timeout callback =>
    { s with timers := ⟨item.id, clock + timeout, callback⟩ :: s.timers }

/-- `zw_send_data_callback_func`. -/
def Serial.sendDataCallbackFunc (s : Serial) (h : Handler) (clock : Nat) (status : Int) : Serial :=
  match s.zwsenddata with
  | [] => { s with lock := false }
  | z :: rest =>
    -- the entry leaves the list before its callback
    { { s with zwsenddata := rest }.senddataCallback h clock z.item status with lock := false }

/-- `zw_request_timeout`. -/
def Serial.requestTimeout (s : Serial) (h : Handler) (t : ReqTimer) : Serial :=
  { s with sendreq := s.sendreq.erase t.id }.callUser h t.callback t.id (-1)

/-- `ztimer_handle`, for the timers that were in the list at its start. No callback of a timer adds one. -/
def Serial.timerHandle (s : Serial) (h : Handler) (now : Nat) : List ReqTimer → Serial
  | [] => s
  | t :: ts =>
    if now ≥ t.interval then
      ({ s with timers := s.timers.filter fun u => u.id ≠ t.id }.requestTimeout h t).timerHandle h now ts
    else s.timerHandle h now ts

/-- The transmission in `zserial_loop`. -/
def Serial.transmit (s : Serial) (h : Handler) (clock : Nat) : Serial :=
  if s.lock then s
  else
    match s.zwsenddata with
    | [] => s
    | z :: _ =>
      { s with log := .sent z.item.id z.node z.data :: s.log, lock := true }.sendDataCallbackFunc h clock 0

/-- A call, or a pass of `zserial_loop` with what the clock shows after the transmission and at the timers. -/
inductive Act
  | request (r : Request)
  | pass (clock now : Nat)

/-- One step. -/
def step (h : Handler) (s : Serial) : Act → Option Serial
  | .request r => some (s.request r)
  | .pass clock now =>
    -- the timers are those in the list behind the transmission
    let s := s.appsenddataLoop.transmit h clock
    some (s.timerHandle h now s.timers)

/-! ## What is owed -/

/-- The requests sent, the newest first. -/
def sentIds (log : List Event) : List Nat :=
  log.filterMap fun
    | .sent id _ _ => some id
    | .called _ _ => none

/-- The requests whose callback was called. -/
def calledIds (log : List Event) : List Nat :=
  log.filterMap fun
    | .sent _ _ _ => none
    | .called id _ => some id

/-- A callback comes after the transmission of its request, and once. -/
def CallsOk : List Event → Prop
  | [] => True
  | .sent _ _ _ :: log => CallsOk log
  | .called id _ :: log => id ∈ sentIds log ∧ id ∉ calledIds log ∧ CallsOk log

/-- The requests are sent once, in the order in which they were made, each with its node and its data. The callbacks
are in order, and a request that is in no queue was sent. -/
structure Orderly (s : Serial) : Prop where
  inOrder : (sentIds s.log).Pairwise (· > ·)
  own : ∀ id node data, .sent id node data ∈ s.log →
    ∃ r, s.made[id]? = some r ∧ node = r.node ∧ data = r.data
  calls : CallsOk s.log
  kept : ∀ id < s.made.length, id ∈ s.appsendata.map Item.id ∨ id ∈ s.zwsenddata.map (fun z => z.item.id) ∨
    id ∈ sentIds s.log

/-- When a pass begins there is at most one entry in the first queue, and the memory it was put into had its node. -/
def Single (s : Serial) : Act → Prop
  | .request _ => True
  | .pass _ _ => s.appsendata.length ≤ 1 ∧
      ∀ item ∈ s.appsendata, ∀ r, s.made[item.id]? = some r → item.node = r.node

/-! ## The first queue and the log -/

/-- The entries of the first queue are the requests that were not sent, and the timers wait for requests that were sent
and not called back. -/
structure Invariant (s : Serial) : Prop where
  items : ∀ item ∈ s.appsendata, ∃ r, s.made[item.id]? = some r ∧ item.data = r.data
  newest : (s.appsendata.map Item.id).Pairwise (· > ·)
  later : ∀ i ∈ s.appsendata.map Item.id, ∀ j ∈ sentIds s.log, j < i
  inOrder : (sentIds s.log).Pairwise (· > ·)
  own : ∀ id node data, .sent id node data ∈ s.log →
    ∃ r, s.made[id]? = some r ∧ node = r.node ∧ data = r.data
  calls : CallsOk s.log
  kept : ∀ id < s.made.length, id ∈ s.appsendata.map Item.id ∨ id ∈ sentIds s.log
  timers : ∀ t ∈ s.timers, t.id ∈ sentIds s.log ∧ t.id ∉ calledIds s.log
  nodup : (s.timers.map ReqTimer.id).Nodup

/-- What happens after a transmission: requests are added, and callbacks are called. -/
structure Grows (s s' : Serial) : Prop where
  made : s.made <+: s'.made
  added : ∀ i ∈ s'.appsendata.map Item.id, i ∈ s.appsendata.map Item.id ∨ s.made.length ≤ i
  zwsenddata : s'.zwsenddata = s.zwsenddata
  lock : s'.lock = s.lock
  sent : sentIds s'.log = sentIds s.log
  log : ∀ event ∈ s.log, event ∈ s'.log

variable {s s' : Serial} {h : Handler} {r : Request} {id : Nat}

theorem Grows.refl (s : Serial) : Grows s s :=
  ⟨List.prefix_refl _, fun _ => .inl, rfl, rfl, rfl, fun _ hevent => hevent⟩

theorem Grows.trans {s'' : Serial} (h₁ : Grows s s') (h₂ : Grows s' s'') : Grows s s'' where
  made := h₁.made.trans h₂.made
  added := fun i hi => by
    rcases h₂.added i hi with hi | hi
    · exact h₁.added i hi
    · exact .inr (Nat.le_trans h₁.made.length_le hi)
  zwsenddata := h₂.zwsenddata.trans h₁.zwsenddata
  lock := h₂.lock.trans h₁.lock
  sent := h₂.sent.trans h₁.sent
  log := fun event hevent => h₂.log event (h₁.log event hevent)

theorem mem_sentIds {log : List Event} : id ∈ sentIds log ↔ ∃ node data, .sent id node data ∈ log := by
  simp only [sentIds, List.mem_filterMap]
  constructor
  · rintro ⟨event, hevent, heq⟩
    cases event with
    | sent i node data =>
      cases heq
      exact ⟨node, data, hevent⟩
    | called i status => cases heq
  · rintro ⟨node, data, hevent⟩
    exact ⟨_, hevent, rfl⟩

theorem CallsOk.sent_of_called {log : List Event} (hcalls : CallsOk log) (hid : id ∈ calledIds log) :
    id ∈ sentIds log := by
  induction log with
  | nil => cases hid
  | cons event log ih =>
    cases event with
    | sent i node data => exact List.mem_cons_of_mem i (ih hcalls hid)
    | called i status =>
      obtain ⟨hsent, -, hrest⟩ := hcalls
      rcases List.mem_cons.mp hid with rfl | hid
      · exact hsent
      · exact ih hrest hid

/-- Only requests that were made are sent. -/
theorem Invariant.sent_lt (hinv : Invariant s) (hid : id ∈ sentIds s.log) : id < s.made.length := by
  obtain ⟨node, data, hevent⟩ := mem_sentIds.mp hid
  obtain ⟨r, hr, -, -⟩ := hinv.own id node data hevent
  exact (List.getElem?_eq_some_iff.mp hr).1

theorem Invariant.item_lt (hinv : Invariant s) (hid : id ∈ s.appsendata.map Item.id) :
    id < s.made.length := by
  obtain ⟨item, hitem, rfl⟩ := List.mem_map.mp hid
  obtain ⟨r, hr, -⟩ := hinv.items item hitem
  exact (List.getElem?_eq_some_iff.mp hr).1

/-- The second queue, the lock and the list of the requests that wait do not matter. -/
theorem Invariant.other (hinv : Invariant s) (zwsenddata : List ZwItem) (lock : Bool) (sendreq : List Nat) :
    Invariant { s with zwsenddata := zwsenddata, lock := lock, sendreq := sendreq } :=
  ⟨hinv.items, hinv.newest, hinv.later, hinv.inOrder, hinv.own, hinv.calls, hinv.kept, hinv.timers,
    hinv.nodup⟩

/-! What every step after a transmission does, whatever the state is. -/

theorem grows_request (s : Serial) (r : Request) : Grows s (s.request r) := by
  refine ⟨List.prefix_append _ _, fun i hi => ?_, rfl, rfl, rfl, fun _ hevent => hevent⟩
  rcases List.mem_cons.mp hi with rfl | hi
  · exact .inr (Nat.le_refl _)
  · exact .inl hi

theorem grows_requests (s : Serial) (rs : List Request) : Grows s (rs.foldl Serial.request s) := by
  induction rs generalizing s with
  | nil => exact .refl s
  | cons r rs ih => exact (grows_request s r).trans (ih (s.request r))

theorem grows_callUser (s : Serial) (h : Handler) (callback : Bool) (id : Nat) (status : Int) :
    Grows s (s.callUser h callback id status) := by
  rw [Serial.callUser]
  split
  · have hlog : Grows s { s with log := .called id status :: s.log } :=
      ⟨List.prefix_refl _, fun _ => .inl, rfl, rfl, rfl, fun _ hevent => List.mem_cons_of_mem _ hevent⟩
    exact hlog.trans (grows_requests _ _)
  · exact .refl s

theorem grows_senddataCallback (s : Serial) (h : Handler) (clock : Nat) (x : Item) (status : Int) :
    Grows s (s.senddataCallback h clock x status) := by
  rw [Serial.senddataCallback]
  split
  · exact grows_callUser s h _ x.id status
  · exact ⟨List.prefix_refl _, fun _ => .inl, rfl, rfl, rfl, fun _ hevent => hevent⟩

theorem grows_timerHandle (s : Serial) (h : Handler) (now : Nat) (ts : List ReqTimer) :
    Grows s (s.timerHandle h now ts) := by
  induction ts generalizing s with
  | nil => exact .refl s
  | cons t ts ih =>
    rw [Serial.timerHandle]
    split
    · have hgone : Grows s { s with
          timers := s.timers.filter fun u => u.id ≠ t.id, sendreq := s.sendreq.erase t.id } :=
        ⟨List.prefix_refl _, fun _ => .inl, rfl, rfl, rfl, fun _ hevent => hevent⟩
      exact (hgone.trans (grows_callUser _ h t.callback t.id (-1))).trans (ih _)
    · exact ih s

/-- A request is made. -/
theorem Invariant.request (hinv : Invariant s) (r : Request) : Invariant (s.request r) := by
  have hmade {i : Nat} {q : Request} (hq : s.made[i]? = some q) : (s.made ++ [r])[i]? = some q := by
    rw [List.getElem?_append_left (List.getElem?_eq_some_iff.mp hq).1, hq]
  refine ⟨?_, ?_, ?_, hinv.inOrder, ?_, hinv.calls, ?_, hinv.timers, hinv.nodup⟩
  · intro item hitem
    rcases List.mem_cons.mp hitem with rfl | hitem
    · exact ⟨r, List.getElem?_concat_length, rfl⟩
    · obtain ⟨q, hq, hdata⟩ := hinv.items item hitem
      exact ⟨q, hmade hq, hdata⟩
  -- its number is the greatest so far
  · exact List.pairwise_cons.mpr ⟨fun i hi => hinv.item_lt hi, hinv.newest⟩
  · intro i hi j hj
    rcases List.mem_cons.mp hi with rfl | hi
    · exact hinv.sent_lt hj
    · exact hinv.later i hi j hj
  · intro i node data hevent
    obtain ⟨q, hq, hown⟩ := hinv.own i node data hevent
    exact ⟨q, hmade hq, hown⟩
  · intro i hi
    have hi : i < (s.made ++ [r]).length := hi
    rw [List.length_append] at hi
    rcases Nat.lt_succ_iff_lt_or_eq.mp hi with hi | rfl
    · exact (hinv.kept i hi).imp_left (List.mem_cons_of_mem _)
    · exact .inl List.mem_cons_self

theorem Invariant.requests (hinv : Invariant s) (rs : List Request) :
    Invariant (rs.foldl Serial.request s) ∧ (rs.foldl Serial.request s).timers = s.timers := by
  induction rs generalizing s with
  | nil => exact ⟨hinv, rfl⟩
  | cons r rs ih => exact ih (hinv.request r)

/-- A callback of a request that was sent, has no timer and was not called back. -/
theorem Invariant.callUser (hinv : Invariant s) (hsent : id ∈ sentIds s.log) (hcalled : id ∉ calledIds s.log)
    (htimer : id ∉ s.timers.map ReqTimer.id) (callback : Bool) (status : Int) :
    Invariant (s.callUser h callback id status) ∧ (s.callUser h callback id status).timers = s.timers := by
  rw [Serial.callUser]
  split
  · have hlog : Invariant { s with log := .called id status :: s.log } := by
      refine ⟨hinv.items, hinv.newest, hinv.later, hinv.inOrder, ?_, ⟨hsent, hcalled, hinv.calls⟩, hinv.kept,
        ?_, hinv.nodup⟩
      · intro i node data hevent
        exact hinv.own i node data ((List.mem_cons.mp hevent).resolve_left nofun)
      -- no timer waits for a request that is called back now
      · intro t ht
        obtain ⟨htsent, htcalled⟩ := hinv.timers t ht
        refine ⟨htsent, fun hmem => ?_⟩
        rcases List.mem_cons.mp hmem with heq | hmem
        · exact htimer (heq ▸ List.mem_map_of_mem ht)
        · exact htcalled hmem
    exact hlog.requests (h (.called id status :: s.log))
  · exact ⟨hinv, rfl⟩

/-- The timers. -/
theorem Invariant.timerHandle {now : Nat} {ts : List ReqTimer} (hinv : Invariant s)
    (hmem : ∀ t ∈ ts, t ∈ s.timers) (hnodup : (ts.map ReqTimer.id).Nodup) :
    Invariant (s.timerHandle h now ts) := by
  induction ts generalizing s with
  | nil => exact hinv
  | cons t ts ih =>
    obtain ⟨hnot, hrest⟩ := List.nodup_cons.mp hnodup
    rw [Serial.timerHandle]
    split
    · obtain ⟨hsent, hcalled⟩ := hinv.timers t (hmem t List.mem_cons_self)
      let s₁ : Serial := { s with
        timers := s.timers.filter fun u => u.id ≠ t.id
        sendreq := s.sendreq.erase t.id }
      have hinv₁ : Invariant s₁ :=
        ⟨hinv.items, hinv.newest, hinv.later, hinv.inOrder, hinv.own, hinv.calls, hinv.kept,
          fun u hu => hinv.timers u (List.mem_filter.mp hu).1,
          hinv.nodup.sublist (List.Sublist.map _ List.filter_sublist)⟩
      -- the timer is out of the list when its callback runs
      have hgone : t.id ∉ s₁.timers.map ReqTimer.id := by
        intro hin
        obtain ⟨u, hu, heq⟩ := List.mem_map.mp hin
        exact of_decide_eq_true (List.mem_filter.mp hu).2 heq
      obtain ⟨hinv₂, htimers⟩ := hinv₁.callUser (h := h) hsent hcalled hgone t.callback (-1)
      -- and the callback leaves the other ones there
      have hmem₂ : ∀ u ∈ ts, u ∈ (s₁.callUser h t.callback t.id (-1)).timers := by
        intro u hu
        rw [htimers]
        refine List.mem_filter.mpr ⟨hmem u (List.mem_cons_of_mem t hu), decide_eq_true fun heq => hnot ?_⟩
        exact heq ▸ List.mem_map_of_mem hu
      exact ih hinv₂ hmem₂ hrest
    · exact ih hinv (fun u hu => hmem u (List.mem_cons_of_mem t hu)) hrest

/-! ## A pass -/

/-- Between two steps nothing is in the second queue. -/
structure Ready (s : Serial) : Prop where
  inv : Invariant s
  zwsenddata : s.zwsenddata = []
  lock : s.lock = false

/-- The state in which the last entry of the first queue has been handed to `ZW_SendData`. -/
def Serial.afterSend (s : Serial) (x : Item) : Serial :=
  { s with appsendata := [], log := .sent x.id x.node x.data :: s.log, zwsenddata := [], lock := true }

/-- A pass hands on the entry that the loop saw last, and all the others are gone. -/
theorem Ready.transmit_eq {x : Item} {clock : Nat} (hready : Ready s)
    (hlast : s.appsendata.getLast? = some x) :
    s.appsenddataLoop.transmit h clock = { (s.afterSend x).senddataCallback h clock x 0 with lock := false } := by
  simp only [Serial.appsenddataLoop, hlast, Serial.transmit, hready.zwsenddata, hready.lock,
    Bool.false_eq_true, if_false, Serial.sendDataCallbackFunc, Serial.afterSend]

/-- Without an entry nothing is sent. -/
theorem Ready.transmit_nil {clock : Nat} (hready : Ready s) (hnil : s.appsendata = []) :
    s.appsenddataLoop.transmit h clock = s := by
  simp only [Serial.appsenddataLoop, hnil, List.getLast?_nil, Serial.transmit, hready.zwsenddata,
    ite_self]

/-- The only entry is sent with its node. -/
theorem Invariant.afterSend {x : Item} (hinv : Invariant s) (hone : s.appsendata = [x])
    (hnode : ∀ r, s.made[x.id]? = some r → x.node = r.node) :
    Invariant (s.afterSend x) ∧ x.id ∉ calledIds s.log ∧ x.id ∉ s.timers.map ReqTimer.id := by
  have hx : x ∈ s.appsendata := by rw [hone]; exact List.mem_singleton.mpr rfl
  have hlater := hinv.later x.id (List.mem_map_of_mem hx)
  -- what is in the queue was not sent
  have hnot : x.id ∉ sentIds s.log := fun hmem => Nat.lt_irrefl _ (hlater x.id hmem)
  refine ⟨⟨nofun, .nil, nofun, ?_, ?_, hinv.calls, ?_, ?_, hinv.nodup⟩, ?_, ?_⟩
  · exact List.pairwise_cons.mpr ⟨hlater, hinv.inOrder⟩
  · intro id node data hevent
    rcases List.mem_cons.mp hevent with heq | hevent
    · cases heq
      obtain ⟨r, hr, hdata⟩ := hinv.items x hx
      exact ⟨r, hr, hnode r hr, hdata⟩
    · exact hinv.own id node data hevent
  · intro id hid
    refine .inr ?_
    rcases hinv.kept id hid with hmem | hmem
    · rw [hone] at hmem
      exact List.mem_cons.mpr (.inl (List.mem_singleton.mp hmem))
    · exact List.mem_cons_of_mem x.id hmem
  · intro t ht
    obtain ⟨hsent, hcalled⟩ := hinv.timers t ht
    exact ⟨List.mem_cons_of_mem x.id hsent, hcalled⟩
  · exact fun hmem => hnot (hinv.calls.sent_of_called hmem)
  · intro hmem
    obtain ⟨t, ht, heq⟩ := List.mem_map.mp hmem
    exact hnot (heq ▸ (hinv.timers t ht).1)

/-- The callback of the driver for an entry that was sent. -/
theorem Invariant.senddataCallback {x : Item} (hinv : Invariant s) (clock : Nat)
    (hsent : x.id ∈ sentIds s.log) (hcalled : x.id ∉ calledIds s.log)
    (htimer : x.id ∉ s.timers.map ReqTimer.id) : Invariant (s.senddataCallback h clock x 0) := by
  rw [Serial.senddataCallback]
  split
  · exact (hinv.callUser hsent hcalled htimer _ 0).1
  · refine { hinv with timers := fun t ht => ?_, nodup := List.nodup_cons.mpr ⟨htimer, hinv.nodup⟩ }
    rcases List.mem_cons.mp ht with rfl | ht
    · exact ⟨hsent, hcalled⟩
    · exact hinv.timers t ht

/-- The state at the end of a pass that sends an entry: the entry is sent, the others are in no queue, and every
later entry is a new request. -/
theorem Ready.pass_grows {x : Item} {clock now : Nat} (hready : Ready s)
    (hlast : s.appsendata.getLast? = some x) (hstep : step h s (.pass clock now) = some s') :
    s.made <+: s'.made ∧ (∀ i ∈ s'.appsendata.map Item.id, s.made.length ≤ i) ∧ s'.zwsenddata = [] ∧
      s'.lock = false ∧ sentIds s'.log = x.id :: sentIds s.log ∧ .sent x.id x.node x.data ∈ s'.log := by
  simp only [step, hready.transmit_eq hlast] at hstep
  cases hstep
  have hcallback := grows_senddataCallback (s.afterSend x) h clock x 0
  have htimers := grows_timerHandle { (s.afterSend x).senddataCallback h clock x 0 with lock := false } h now
    ((s.afterSend x).senddataCallback h clock x 0).timers
  refine ⟨hcallback.made.trans htimers.made, fun i hi => ?_, htimers.zwsenddata.trans hcallback.zwsenddata,
    htimers.lock, htimers.sent.trans hcallback.sent, ?_⟩
  · rcases htimers.added i hi with hi | hi
    · rcases hcallback.added i hi with hi | hi
      · cases hi
      · exact hi
    · exact Nat.le_trans hcallback.made.length_le hi
  · exact htimers.log _ (hcallback.log _ List.mem_cons_self)

/-- A pass with no entry runs only the timers. -/
theorem Ready.pass_nil (hready : Ready s) (hnil : s.appsendata = [])
    (hstep : ZWave.step h s (.pass clock now) = some s') : Ready s' := by
  simp only [ZWave.step, hready.transmit_nil hnil] at hstep
  cases hstep
  have htimers := grows_timerHandle s h now s.timers
  refine ⟨hready.inv.timerHandle (fun _ ht => ht) hready.inv.nodup, ?_, ?_⟩
  · exact htimers.zwsenddata.trans hready.zwsenddata
  · exact htimers.lock.trans hready.lock

/-- A pass sends the only entry, as it was made. -/
theorem Ready.pass_single {x : Item} (hready : Ready s) (hone : s.appsendata = [x])
    (hnode : ∀ r, s.made[x.id]? = some r → x.node = r.node)
    (hstep : ZWave.step h s (.pass clock now) = some s') : Ready s' := by
  have hlast : s.appsendata.getLast? = some x := by rw [hone]; rfl
  obtain ⟨-, -, hzw, hlock, -, -⟩ := hready.pass_grows hlast hstep
  simp only [ZWave.step, hready.transmit_eq hlast] at hstep
  cases hstep
  obtain ⟨hinv, hcalled, htimer⟩ := hready.inv.afterSend hone hnode
  have hcallback := hinv.senddataCallback (h := h) clock List.mem_cons_self hcalled htimer
  have hunlocked := hcallback.other
    ((s.afterSend x).senddataCallback h clock x 0).zwsenddata false
    ((s.afterSend x).senddataCallback h clock x 0).sendreq
  exact ⟨hunlocked.timerHandle (fun _ ht => ht) hcallback.nodup, hzw, hlock⟩

/-- Where every request is kept behind a pass, the entry sent was the only one: the others would be in no queue. -/
theorem Ready.single_of_kept {x : Item} (hready : Ready s) (hlast : s.appsendata.getLast? = some x)
    (hstep : ZWave.step h s (.pass clock now) = some s') (horderly : Orderly s') : s.appsendata = [x] := by
  obtain ⟨hmade, hadded, hzw, -, hsent, -⟩ := hready.pass_grows hlast hstep
  have hx : x ∈ s.appsendata := List.mem_of_getLast? hlast
  have hall : ∀ y ∈ s.appsendata, y.id = x.id := by
    intro y hy
    have hid := hready.inv.item_lt (List.mem_map_of_mem hy)
    rcases horderly.kept y.id (Nat.lt_of_lt_of_le hid hmade.length_le) with hmem | hmem | hmem
    · exact absurd (hadded y.id hmem) (Nat.not_le.mpr hid)
    · rw [hzw] at hmem
      cases hmem
    · rw [hsent] at hmem
      rcases List.mem_cons.mp hmem with heq | hmem
      · exact heq
      · exact absurd (hready.inv.later y.id (List.mem_map_of_mem hy) y.id hmem) (Nat.lt_irrefl _)
  have hnewest := hready.inv.newest
  cases happ : s.appsendata with
  | nil => rw [happ] at hx; cases hx
  | cons y ys =>
    cases ys with
    | nil =>
      rw [happ] at hlast
      cases hlast
      rfl
    | cons z zs =>
      -- the newest entry has the greatest number
      rw [happ] at hall hnewest
      have hgt : y.id > z.id := (List.pairwise_cons.mp hnewest).1 z.id List.mem_cons_self
      rw [hall y List.mem_cons_self, hall z (by simp)] at hgt
      exact absurd hgt (Nat.lt_irrefl _)

/-- One step: it keeps the invariant when at most one entry is there, and only then are the requests in order. -/
theorem Ready.step {a : Act} (hready : Ready s) (hstep : ZWave.step h s a = some s') :
    (Single s a → Ready s') ∧ (Orderly s' → Single s a) := by
  cases a with
  | request r =>
    cases hstep
    exact ⟨fun _ => ⟨hready.inv.request r, hready.zwsenddata, hready.lock⟩, fun _ => trivial⟩
  | pass clock now =>
    cases hlast : s.appsendata.getLast? with
    | none =>
      have hnil : s.appsendata = [] := List.getLast?_eq_none_iff.mp hlast
      refine ⟨fun _ => hready.pass_nil hnil hstep, fun _ => ⟨?_, ?_⟩⟩
      · rw [hnil]
        exact Nat.zero_le 1
      · rw [hnil]
        exact nofun
    | some x =>
      have hx : x ∈ s.appsendata := List.mem_of_getLast? hlast
      constructor
      · rintro ⟨hlen, hnode⟩
        obtain ⟨y, hone⟩ := List.length_eq_one_iff.mp (Nat.le_antisymm hlen (List.length_pos_of_mem hx))
        obtain rfl : x = y := by rwa [hone, List.mem_singleton] at hx
        exact hready.pass_single hone (hnode x hx) hstep
      · intro horderly
        have hone := hready.single_of_kept hlast hstep horderly
        refine ⟨by rw [hone]; exact Nat.le_refl 1, fun item hitem r hr => ?_⟩
        obtain rfl : item = x := by rwa [hone, List.mem_singleton] at hitem
        obtain ⟨hmade, -, -, -, -, hevent⟩ := hready.pass_grows hlast hstep
        obtain ⟨q, hq, hnode, -⟩ := horderly.own _ _ _ hevent
        have hlt := (List.getElem?_eq_some_iff.mp hr).1
        obtain ⟨rest, hrest⟩ := hmade
        rw [← hrest, List.getElem?_append_left hlt, hr] at hq
        cases hq
        exact hnode

/-! ## Every run -/

theorem Ready.orderly (hready : Ready s) : Orderly s where
  inOrder := hready.inv.inOrder
  own := hready.inv.own
  calls := hready.inv.calls
  kept := fun id hid => (hready.inv.kept id hid).imp_right .inr

theorem ready_init : Ready Serial.init where
  inv := ⟨nofun, .nil, nofun, .nil, nofun, trivial, nofun, nofun, .nil⟩
  zwsenddata := rfl
  lock := rfl

/-- **The requests are sent as they were made exactly when every pass finds at most one of them, in memory that had
its node.** -/
theorem orderly_iff_single (h : Handler) (acts : List Act) :
    (∀ as bs s, acts = as ++ bs → run (step h) Serial.init as = some s → Orderly s) ↔
      Meets (step h) Single Serial.init acts := by
  have htotal : ∀ s a, True → ∃ s', step h s a = some s' ∧ True := by
    intro s a _
    cases a <;> exact ⟨_, rfl, trivial⟩
  obtain ⟨t, hrun, -⟩ := run_total htotal (s := Serial.init) trivial acts
  exact good_iff_meets (fun _ => Ready.orderly) (fun _ _ _ hready hs => hready.step hs) ready_init hrun

/-- A request for a node with a byte of data, in memory that has 0 in the place of the node. -/
def oneByte (node data : UInt8) : Request where
  node := node
  data := [data]
  kind := .appsenddata true
  malloced := 0
  length_lt := Nat.succ_lt_succ (Nat.zero_lt_succ 254)

/-- Of two requests one is sent, to the node 0, and the other one is gone. -/
theorem second_request_lost :
    ∃ s, run (step fun _ => []) Serial.init
        [.request (oneByte 3 65), .request (oneByte 4 66), .pass 0 0] = some s ∧
      s.log = [.called 0 0, .sent 0 0 [65]] ∧ s.appsendata = [] ∧ s.zwsenddata = [] ∧ ¬Orderly s := by
  refine ⟨_, rfl, rfl, rfl, rfl, fun h => ?_⟩
  rcases h.kept 1 (Nat.lt_succ_self 1) with hmem | hmem | hmem
  · cases hmem
  · cases hmem
  · exact absurd hmem (by decide)

end ProgrammingPath.ZWave
