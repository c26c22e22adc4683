import Mathlib.Data.List.Induction
import Mathlib.Data.List.Nodup
import ProgrammingPath.Lib.Run

/-!
# Requests and their echoes

`submitBrushCard`, `submitBadData` and `submitAlarmData` send a packet and wait for the server's echo,
which another thread hands to `downData_echo`. A call registers a response on its stack in
`responseList`, and the echo is matched by tag and key. Here the calls are a step system: what is done
under `responseMutex` is one step, and so is every other step of a caller, so that any number of
callers, echoes and timeouts come in any order. A key is a 16-bit counter, so what keeps calls apart
is that fewer than 65536 keys are given out from the registration of a call to its removal.
-/

namespace ProgrammingPath.Hmi.Echo

open ProgrammingPath.Lib

/-! ## Calls -/

/-- The three functions that submit. -/
inductive Submit
  | brushCard
  | badData
  | alarmData
  deriving DecidableEq, Repr

def Submit.tag : Submit → Int
  | .brushCard => 0x12
  | .badData => 0x13
  | .alarmData => 0x14

/-- `MESMsgResponse`. -/
structure Response where
  responseFlag : Bool
  tag : Int
  key : Int
  msg : String
  result : Int
  deriving DecidableEq, Repr

/-- Where a call is: its response is registered, `sendD2S` returned true, it waits, the wait is over,
it has looked at its response, it has removed the response and returned. -/
inductive Phase
  | registered
  | sent
  | waiting
  | woken
  | answered (ret : Bool) (msg : String)
  | returned (ret : Bool) (msg : String)
  deriving DecidableEq, Repr

structure Call where
  response : Response
  phase : Phase
  deriving DecidableEq, Repr

/-- The handler: all calls so far, in the order in which they registered, and the pointers of
`responseList` into them. -/
structure Handler where
  calls : List Call
  responseList : List Nat
  myCurkey : UInt16
  deriving DecidableEq, Repr

def Handler.init : Handler := ⟨[], [], 0⟩

/-- The body of an echo: not JSON, JSON without a result, or a result with a text. -/
inductive Body
  | malformed
  | noResult
  | result (code : Int) (msg : String)
  deriving DecidableEq, Repr

def Body.code : Body → Int
  | .malformed => -1
  | .noResult => -1
  | .result code _ => code

def Body.text : Body → String
  | .malformed => "Json format error"
  | .noResult => "json format error"
  | .result _ msg => msg

/-! ## Steps -/

inductive Event
  | submit (kind : Submit)
  | send (i : Nat) (ret : Bool)
  | wait (i : Nat)
  | wake (i : Nat)
  | evaluate (i : Nat)
  | remove (i : Nat)
  | echo (tag key : Int) (body : Body)
  deriving DecidableEq, Repr

/-- What `downData_echo` does to one response of the list. -/
def complete (tag key : Int) (body : Body) (r : Response) : Response :=
  if r.key = key ∧ r.tag = tag ∧ r.responseFlag = false then
    { r with msg := body.text, result := body.code, responseFlag := true }
  else r

/-- `MESMsgHandler::downData_echo`. -/
def downDataEcho (s : Handler) (tag key : Int) (body : Body) : Handler :=
  { s with
    calls := s.responseList.foldl
      (fun calls i => calls.modify i fun c => { c with response := complete tag key body c.response })
      s.calls }

/-- A submit function up to the end of its first critical section. -/
def submit (s : Handler) (kind : Submit) : Handler where
  calls := s.calls ++ [⟨⟨false, kind.tag, s.myCurkey.toNat, "", -1⟩, .registered⟩]
  responseList := s.responseList ++ [s.calls.length]
  myCurkey := s.myCurkey + 1

/-- What a submit function makes of its response after the wait. -/
def answer (r : Response) : Phase :=
  if r.responseFlag then .answered (r.result == 0) r.msg
  else .answered false "数据提交出错，服务器未响应"

/-- A call goes on. -/
def advance (s : Handler) (i : Nat) (next : Call → Option Phase) : Option Handler :=
  (s.calls[i]?).bind fun c => (next c).map fun phase =>
    { s with calls := s.calls.modify i fun c => { c with phase := phase } }

/-- `sendD2S` returned. -/
def afterSend (ret : Bool) (c : Call) : Option Phase :=
  match c.phase with
  | .registered => some (if ret then .sent else .answered false "数据提交出错，请检查网络!")
  | _ => none

def afterWait (c : Call) : Option Phase :=
  match c.phase with
  | .sent => some .waiting
  | _ => none

/-- The wait is over: somebody called `wakeAll`, or the time is up. -/
def afterWake (c : Call) : Option Phase :=
  match c.phase with
  | .waiting => some .woken
  | _ => none

def afterEvaluate (c : Call) : Option Phase :=
  match c.phase with
  | .woken => some (answer c.response)
  | _ => none

def afterRemove (c : Call) : Option Phase :=
  match c.phase with
  | .answered ret msg => some (.returned ret msg)
  | _ => none

/-- One step; `none` when the call is not where the step starts. -/
def step (s : Handler) : Event → Option Handler
  | .submit kind => some (submit s kind)
  | .send i ret => advance s i (afterSend ret)
  | .wait i => advance s i afterWait
  | .wake i => advance s i afterWake
  | .evaluate i => advance s i afterEvaluate
  | .remove i =>
    (advance s i afterRemove).map fun t => { t with responseList := t.responseList.erase i }
  | .echo tag key body => some (downDataEcho s tag key body)

/-! ## What a step does to a call -/

variable {s t : Handler} {i j : Nat} {c : Call} {tag key : Int} {body : Body}

theorem advance_eq_some {next : Call → Option Phase} (h : advance s i next = some t) :
    ∃ c phase, s.calls[i]? = some c ∧ next c = some phase ∧
      t = { s with calls := s.calls.modify i fun c => { c with phase := phase } } := by
  rw [advance, Option.bind_eq_some_iff] at h
  obtain ⟨c, hc, h⟩ := h
  obtain ⟨phase, hphase, rfl⟩ := Option.map_eq_some_iff.mp h
  exact ⟨c, phase, hc, hphase, rfl⟩

theorem complete_complete (r : Response) :
    complete tag key body (complete tag key body r) = complete tag key body r := by
  by_cases h : r.key = key ∧ r.tag = tag ∧ r.responseFlag = false
  · have hr : complete tag key body r =
        { r with msg := body.text, result := body.code, responseFlag := true } := if_pos h
    rw [hr]
    exact if_neg (by simp)
  · have hr : complete tag key body r = r := if_neg h
    rw [hr, hr]

/-- An echo looks at the calls of the list and at no other one. -/
theorem getElem?_downDataEcho (s : Handler) (tag key : Int) (body : Body) (j : Nat) :
    (downDataEcho s tag key body).calls[j]? =
      (s.calls[j]?).map fun c =>
        if j ∈ s.responseList then { c with response := complete tag key body c.response } else c := by
  rw [downDataEcho]
  simp only
  generalize s.calls = calls
  induction s.responseList generalizing calls with
  | nil => simp
  | cons i rest ih =>
    rw [List.foldl_cons, ih, List.getElem?_modify]
    cases hc : calls[j]? with
    | none => rfl
    | some c =>
      by_cases hij : i = j
      · subst hij
        by_cases hmem : i ∈ rest
        · simp [hmem, complete_complete]
        · simp [hmem]
      · simp [hij, Ne.symm hij]

/-- The response of a call is left alone, or completed by an echo that matches it. -/
inductive Change (s : Handler) (e : Event) (i : Nat) (c : Call) : Response → Prop
  | same : Change s e i c c.response
  | completed {body : Body} (he : e = .echo c.response.tag c.response.key body)
    (hmem : i ∈ s.responseList) (hflag : c.response.responseFlag = false) :
    Change s e i c
      { c.response with msg := body.text, result := body.code, responseFlag := true }

/-- The phase of a call is left alone, or the step is its own. -/
inductive Move (e : Event) (i : Nat) (c : Call) : Phase → Prop
  | stay : Move e i c c.phase
  | send {ret : Bool} {phase : Phase} (he : e = .send i ret) (h : afterSend ret c = some phase) :
    Move e i c phase
  | wait {phase : Phase} (he : e = .wait i) (h : afterWait c = some phase) : Move e i c phase
  | wake {phase : Phase} (he : e = .wake i) (h : afterWake c = some phase) : Move e i c phase
  | evaluate {phase : Phase} (he : e = .evaluate i) (h : afterEvaluate c = some phase) :
    Move e i c phase
  | remove {phase : Phase} (he : e = .remove i) (h : afterRemove c = some phase) : Move e i c phase

theorem getElem?_advance {next : Call → Option Phase} (h : advance s i next = some t)
    (hc : s.calls[j]? = some c) :
    ∃ phase, t.calls[j]? = some { c with phase := phase } ∧
      (phase = c.phase ∨ i = j ∧ next c = some phase) := by
  obtain ⟨c', phase, hc', hphase, rfl⟩ := advance_eq_some h
  simp only [List.getElem?_modify, hc, Option.map_eq_map, Option.map_some]
  by_cases hij : i = j
  · subst hij
    rw [hc] at hc'
    cases hc'
    exact ⟨phase, by simp, .inr ⟨rfl, hphase⟩⟩
  · exact ⟨c.phase, by simp [hij], .inl rfl⟩

/-- What a step does to a call that is there. -/
theorem step_call {e : Event} (h : step s e = some t) (hc : s.calls[j]? = some c) :
    ∃ response phase, t.calls[j]? = some ⟨response, phase⟩ ∧ Change s e j c response ∧
      Move e j c phase := by
  cases e with
  | submit kind =>
    cases h
    have hlt := (List.getElem?_eq_some_iff.mp hc).1
    refine ⟨c.response, c.phase, ?_, .same, .stay⟩
    rw [submit, List.getElem?_append_left hlt, hc]
  | send i ret =>
    obtain ⟨phase, ht, rfl | ⟨rfl, hnext⟩⟩ := getElem?_advance h hc
    · exact ⟨_, _, ht, .same, .stay⟩
    · exact ⟨_, _, ht, .same, .send rfl hnext⟩
  | wait i =>
    obtain ⟨phase, ht, rfl | ⟨rfl, hnext⟩⟩ := getElem?_advance h hc
    · exact ⟨_, _, ht, .same, .stay⟩
    · exact ⟨_, _, ht, .same, .wait rfl hnext⟩
  | wake i =>
    obtain ⟨phase, ht, rfl | ⟨rfl, hnext⟩⟩ := getElem?_advance h hc
    · exact ⟨_, _, ht, .same, .stay⟩
    · exact ⟨_, _, ht, .same, .wake rfl hnext⟩
  | evaluate i =>
    obtain ⟨phase, ht, rfl | ⟨rfl, hnext⟩⟩ := getElem?_advance h hc
    · exact ⟨_, _, ht, .same, .stay⟩
    · exact ⟨_, _, ht, .same, .evaluate rfl hnext⟩
  | remove i =>
    obtain ⟨m, hm, rfl⟩ := Option.map_eq_some_iff.mp h
    obtain ⟨phase, ht, rfl | ⟨rfl, hnext⟩⟩ := getElem?_advance hm hc
    · exact ⟨_, _, ht, .same, .stay⟩
    · exact ⟨_, _, ht, .same, .remove rfl hnext⟩
  | echo tag key body =>
    cases h
    rw [getElem?_downDataEcho, hc, Option.map_some]
    by_cases hmem : j ∈ s.responseList
    · rw [if_pos hmem]
      refine ⟨_, _, rfl, ?_, .stay⟩
      rw [complete]
      split
      · next hmatch =>
        obtain ⟨rfl, rfl, hflag⟩ := hmatch
        exact .completed rfl hmem hflag
      · exact .same
    · rw [if_neg hmem]
      exact ⟨_, _, rfl, .same, .stay⟩

theorem length_downDataEcho (s : Handler) (tag key : Int) (body : Body) :
    (downDataEcho s tag key body).calls.length = s.calls.length :=
  foldl_frame List.length (fun _ _ => List.length_modify ..) _ _

/-- A step registers a call, or leaves the number of calls and the counter alone. -/
theorem step_frame {e : Event} (h : step s e = some t) :
    (∃ kind, e = .submit kind ∧ t = submit s kind) ∨
      t.calls.length = s.calls.length ∧ t.myCurkey = s.myCurkey ∧
        (t.responseList = s.responseList ∨ ∃ i, t.responseList = s.responseList.erase i) := by
  have hadvance : ∀ {i next}, advance s i next = some t →
      t.calls.length = s.calls.length ∧ t.myCurkey = s.myCurkey ∧
        (t.responseList = s.responseList ∨ ∃ i, t.responseList = s.responseList.erase i) := by
    intro i next h
    obtain ⟨_, _, _, _, rfl⟩ := advance_eq_some h
    exact ⟨List.length_modify .., rfl, .inl rfl⟩
  cases e with
  | submit kind =>
    cases h
    exact .inl ⟨kind, rfl, rfl⟩
  | send i ret => exact .inr (hadvance h)
  | wait i => exact .inr (hadvance h)
  | wake i => exact .inr (hadvance h)
  | evaluate i => exact .inr (hadvance h)
  | remove i =>
    obtain ⟨m, hm, rfl⟩ := Option.map_eq_some_iff.mp h
    obtain ⟨_, _, _, _, rfl⟩ := advance_eq_some hm
    exact .inr ⟨List.length_modify .., rfl, .inr ⟨i, rfl⟩⟩
  | echo tag key body =>
    cases h
    exact .inr ⟨length_downDataEcho .., rfl, .inl rfl⟩

/-- A call was there before the step, or is the one that registers. -/
theorem step_call_inv {e : Event} (h : step s e = some t) (hc : t.calls[j]? = some c) :
    (∃ c', s.calls[j]? = some c') ∨
      ∃ kind, e = .submit kind ∧ j = s.calls.length ∧
        c = ⟨⟨false, kind.tag, s.myCurkey.toNat, "", -1⟩, .registered⟩ := by
  by_cases hlt : j < s.calls.length
  · exact .inl ⟨_, List.getElem?_eq_getElem hlt⟩
  · rcases step_frame h with ⟨kind, rfl, rfl⟩ | ⟨hlen, -⟩
    · have hle := (List.getElem?_eq_some_iff.mp hc).1
      rw [submit, List.length_append, List.length_singleton] at hle
      have hj : j = s.calls.length := by omega
      subst hj
      rw [submit, List.getElem?_concat_length] at hc
      exact .inr ⟨kind, rfl, rfl, (Option.some.inj hc).symm⟩
    · have hle := (List.getElem?_eq_some_iff.mp hc).1
      omega

/-! ## Keys -/

/-- Whenever a call registers, fewer than 65536 keys were given out since the registration of any
call that is outstanding. -/
def spaced (s : Handler) : Event → Prop
  | .submit _ => ∀ i ∈ s.responseList, s.calls.length < i + 65536
  | _ => True

/-- What an echo is matched with. -/
def Handler.matchKey (s : Handler) (i : Nat) : Option (Int × Int) :=
  (s.calls[i]?).map fun c => (c.response.tag, c.response.key)

/-- No two outstanding calls share tag and key. -/
def UniqueKeys (s : Handler) : Prop := (s.responseList.map s.matchKey).Nodup

/-- The key of a call is its number, modulo 65536. -/
structure Keyed (s : Handler) : Prop where
  cur : s.myCurkey.toNat = s.calls.length % 65536
  key : ∀ i c, s.calls[i]? = some c → c.response.key = ((i % 65536 : Nat) : Int)
  listed : ∀ i ∈ s.responseList, i < s.calls.length
  nodup : s.responseList.Nodup
  window : ∀ i ∈ s.responseList, s.calls.length ≤ i + 65536

theorem keyed_init : Keyed Handler.init where
  cur := rfl
  key := fun _ _ h => by cases h
  listed := fun _ h => by cases h
  nodup := List.nodup_nil
  window := fun _ h => by cases h

theorem Change.tag_key {e : Event} {r : Response} (h : Change s e i c r) :
    r.tag = c.response.tag ∧ r.key = c.response.key := by
  cases h with
  | same => exact ⟨rfl, rfl⟩
  | completed he hmem hflag => exact ⟨rfl, rfl⟩

theorem keyed_step (s : Handler) (e : Event) (t : Handler) (h : Keyed s) (hok : spaced s e)
    (hstep : step s e = some t) : Keyed t := by
  have hkey : ∀ i c, t.calls[i]? = some c → c.response.key = ((i % 65536 : Nat) : Int) := by
    intro i c hc
    rcases step_call_inv hstep hc with ⟨c', hc'⟩ | ⟨kind, -, rfl, rfl⟩
    · obtain ⟨r, phase, ht, hchange, -⟩ := step_call hstep hc'
      rw [hc] at ht
      cases ht
      rw [hchange.tag_key.2]
      exact h.key i c' hc'
    · rw [← h.cur]
  rcases step_frame hstep with ⟨kind, rfl, rfl⟩ | ⟨hlen, hcur, hlist⟩
  · have hcalls : (submit s kind).calls.length = s.calls.length + 1 := List.length_append
    refine ⟨?_, hkey, fun i hi => ?_, ?_, fun i hi => ?_⟩
    · have := h.cur
      rw [hcalls, submit, UInt16.toNat_add]
      show (s.myCurkey.toNat + 1) % 65536 = _
      omega
    · rcases List.mem_append.mp hi with hi | hi
      · have := h.listed i hi
        omega
      · rw [List.mem_singleton.mp hi]
        omega
    · refine List.nodup_append.mpr ⟨h.nodup, List.nodup_singleton _, fun a ha b hb => ?_⟩
      rw [List.mem_singleton.mp hb]
      exact Nat.ne_of_lt (h.listed a ha)
    · rcases List.mem_append.mp hi with hi | hi
      · have : s.calls.length < i + 65536 := hok i hi
        omega
      · rw [List.mem_singleton.mp hi]
        omega
  · have hsub : t.responseList.Sublist s.responseList := by
      rcases hlist with heq | ⟨i, heq⟩
      · rw [heq]
      · rw [heq]
        exact List.erase_sublist
    refine ⟨by rw [hcur, hlen, h.cur], hkey, fun i hi => ?_, h.nodup.sublist hsub, fun i hi => ?_⟩
    · rw [hlen]
      exact h.listed i (hsub.subset hi)
    · rw [hlen]
      exact h.window i (hsub.subset hi)

/-- Keys of the window are distinct. -/
theorem Keyed.eq_of_matchKey (h : Keyed s) (hi : i ∈ s.responseList) (hj : j ∈ s.responseList)
    (heq : s.matchKey i = s.matchKey j) : i = j := by
  have hi' := List.getElem?_eq_getElem (h.listed i hi)
  have hj' := List.getElem?_eq_getElem (h.listed j hj)
  rw [Handler.matchKey, Handler.matchKey, hi', hj'] at heq
  have hkey := congrArg Prod.snd (Option.some.inj heq)
  simp only at hkey
  rw [h.key i _ hi', h.key j _ hj'] at hkey
  have h1 := h.window i hi
  have h2 := h.window j hj
  have h3 := h.listed i hi
  have h4 := h.listed j hj
  omega

theorem Keyed.unique (h : Keyed s) : UniqueKeys s :=
  (List.nodup_map_iff_inj_on h.nodup).mpr fun _ hi _ hj heq => h.eq_of_matchKey hi hj heq

/-! ## An echo completes at most one call -/

/-- The step answered the call. -/
def Completed (s t : Handler) (i : Nat) : Prop :=
  ∃ c c', s.calls[i]? = some c ∧ t.calls[i]? = some c' ∧ c.response.responseFlag = false ∧
    c'.response.responseFlag = true

/-- Which call an echo answers. -/
theorem matchKey_of_completed (h : Completed s (downDataEcho s tag key body) i) :
    i ∈ s.responseList ∧ s.matchKey i = some (tag, key) := by
  obtain ⟨c, c', hc, hc', hflag, hflag'⟩ := h
  obtain ⟨r, phase, ht, hchange, -⟩ :=
    step_call (show step s (.echo tag key body) = some _ from rfl) hc
  rw [hc'] at ht
  cases ht
  cases hchange with
  | same =>
    rw [hflag] at hflag'
    cases hflag'
  | completed he hmem _ =>
    cases he
    exact ⟨hmem, by rw [Handler.matchKey, hc]; rfl⟩

theorem Keyed.completed_unique (h : Keyed s) (hi : Completed s (downDataEcho s tag key body) i)
    (hj : Completed s (downDataEcho s tag key body) j) : i = j := by
  obtain ⟨hmi, hki⟩ := matchKey_of_completed hi
  obtain ⟨hmj, hkj⟩ := matchKey_of_completed hj
  exact h.eq_of_matchKey hmi hmj (hki.trans hkj.symm)

/-! ## A call that succeeds was answered -/

/-- The call has returned. -/
def Returned (s : Handler) (i : Nat) (ret : Bool) : Prop :=
  ∃ c msg, s.calls[i]? = some c ∧ c.phase = .returned ret msg

/-- An echo with the tag and the key of the call and result 0 was processed while it was outstanding. -/
def EchoedIn (events : List Event) (i : Nat) : Prop :=
  ∃ before after mid c body,
    events = before ++ .echo c.response.tag c.response.key body :: after ∧
    run step Handler.init before = some mid ∧ i ∈ mid.responseList ∧ mid.calls[i]? = some c ∧
    body.code = 0

theorem EchoedIn.concat {events : List Event} (h : EchoedIn events i) (e : Event) :
    EchoedIn (events ++ [e]) i := by
  obtain ⟨before, after, mid, c, body, rfl, hrun, hmem, hc, hcode⟩ := h
  exact ⟨before, after ++ [e], mid, c, body, by simp, hrun, hmem, hc, hcode⟩

/-- A good result in a response comes from an echo. -/
theorem echoedIn_of_flag {events : List Event} (hrun : run step Handler.init events = some s)
    (hc : s.calls[i]? = some c) (hflag : c.response.responseFlag = true)
    (hresult : c.response.result = 0) : EchoedIn events i := by
  induction events using List.reverseRecOn generalizing s c with
  | nil =>
    cases hrun
    cases hc
  | append_singleton events e ih =>
    obtain ⟨m, hm, hstep⟩ := run_concat_eq_some.mp hrun
    rcases step_call_inv hstep hc with ⟨c', hc'⟩ | ⟨kind, -, -, rfl⟩
    · obtain ⟨r, phase, ht, hchange, -⟩ := step_call hstep hc'
      rw [hc] at ht
      cases ht
      cases hchange with
      | same => exact (ih hm hc' hflag hresult).concat e
      | @completed body he hmem _ => exact ⟨events, [], m, c', body, by rw [he], hm, hmem, hc', hresult⟩
    · cases hflag

/-- What the phase of a call says about its response. -/
def Honest (c : Call) : Prop :=
  ∀ msg, c.phase = .answered true msg ∨ c.phase = .returned true msg →
    c.response.responseFlag = true ∧ c.response.result = 0

/-- A response that was answered stays as it is. -/
theorem Change.of_flag {e : Event} {r : Response} (h : Change s e i c r)
    (hflag : c.response.responseFlag = true) : r = c.response := by
  cases h with
  | same => rfl
  | completed _ _ hflag' => cases hflag.symm.trans hflag'

theorem answer_eq_true {r : Response} {msg : String} (h : answer r = .answered true msg) :
    r.responseFlag = true ∧ r.result = 0 := by
  rw [answer] at h
  split at h
  · next hflag =>
    rw [Phase.answered.injEq] at h
    exact ⟨hflag, beq_iff_eq.mp h.1⟩
  · cases h

theorem answer_ne_returned (r : Response) (ret : Bool) (msg : String) :
    answer r ≠ .returned ret msg := by
  rw [answer]
  split <;> exact fun h => by cases h

/-- A call comes to a good end only over a good response. -/
theorem honest_move {e : Event} {phase : Phase} (h : Honest c) (hmove : Move e i c phase) :
    ∀ msg, phase = .answered true msg ∨ phase = .returned true msg →
      c.response.responseFlag = true ∧ c.response.result = 0 := by
  intro msg hphase
  cases hmove with
  | stay => exact h msg hphase
  | @send ret _ _ hnext =>
    rw [afterSend] at hnext
    split at hnext
    · cases ret <;> cases hnext <;> rcases hphase with hp | hp <;> cases hp
    · cases hnext
  | wait _ hnext =>
    rw [afterWait] at hnext
    split at hnext
    · cases hnext
      rcases hphase with hp | hp <;> cases hp
    · cases hnext
  | wake _ hnext =>
    rw [afterWake] at hnext
    split at hnext
    · cases hnext
      rcases hphase with hp | hp <;> cases hp
    · cases hnext
  | evaluate _ hnext =>
    rw [afterEvaluate] at hnext
    split at hnext
    · cases hnext
      rcases hphase with hp | hp
      · exact answer_eq_true hp
      · exact absurd hp (answer_ne_returned _ _ _)
    · cases hnext
  | remove _ hnext =>
    rw [afterRemove] at hnext
    split at hnext
    · next ret msg' heq =>
      cases hnext
      rcases hphase with hp | hp
      · cases hp
      · cases hp
        exact h _ (.inl heq)
    · cases hnext

theorem honest_step (s : Handler) (e : Event) (t : Handler)
    (h : ∀ (i : Nat) (c : Call), s.calls[i]? = some c → Honest c) (hstep : step s e = some t) :
    ∀ (i : Nat) (c : Call), t.calls[i]? = some c → Honest c := by
  intro i c hc msg hphase
  rcases step_call_inv hstep hc with ⟨c', hc'⟩ | ⟨kind, -, -, rfl⟩
  · obtain ⟨r, phase, ht, hchange, hmove⟩ := step_call hstep hc'
    rw [hc] at ht
    cases ht
    obtain ⟨hflag, hresult⟩ := honest_move (h i c' hc') hmove msg hphase
    rw [hchange.of_flag hflag]
    exact ⟨hflag, hresult⟩
  · rcases hphase with hp | hp <;> cases hp

theorem honest_run {events : List Event} (hrun : run step Handler.init events = some s) :
    ∀ (i : Nat) (c : Call), s.calls[i]? = some c → Honest c := by
  induction events using List.reverseRecOn generalizing s with
  | nil =>
    cases hrun
    exact fun _ _ h => by cases h
  | append_singleton events e ih =>
    obtain ⟨m, hm, hstep⟩ := run_concat_eq_some.mp hrun
    exact honest_step m e s (ih hm) hstep

theorem echoedIn_of_returned {events : List Event} (hrun : run step Handler.init events = some s)
    (h : Returned s i true) : EchoedIn events i := by
  obtain ⟨c, msg, hc, hphase⟩ := h
  obtain ⟨hflag, hresult⟩ := honest_run hrun i c hc msg (.inr hphase)
  exact echoedIn_of_flag hrun hc hflag hresult

/-! ## An echo before the wait -/

/-- The call has failed. -/
def Phase.failed : Phase → Bool
  | .answered ret _ => !ret
  | .returned ret _ => !ret
  | _ => false

/-- The call has a good response and has not failed. -/
structure Succeeding (s : Handler) (i : Nat) (c : Call) : Prop where
  call : s.calls[i]? = some c
  flag : c.response.responseFlag = true
  result : c.response.result = 0
  alive : c.phase.failed = false

/-- Steps keep it so, but for `sendD2S` returning false. -/
theorem succeeding_step {e : Event} (h : Succeeding s i c) (hsend : e ≠ .send i false)
    (hstep : step s e = some t) : ∃ c', Succeeding t i c' := by
  obtain ⟨r, phase, ht, hchange, hmove⟩ := step_call hstep h.call
  rw [hchange.of_flag h.flag] at ht
  refine ⟨⟨c.response, phase⟩, ht, h.flag, h.result, ?_⟩
  cases hmove with
  | stay => exact h.alive
  | @send ret _ he hnext =>
    rw [afterSend] at hnext
    split at hnext
    · cases ret with
      | false => exact absurd he hsend
      | true =>
        cases hnext
        rfl
    · cases hnext
  | wait _ hnext =>
    rw [afterWait] at hnext
    split at hnext
    · cases hnext
      rfl
    · cases hnext
  | wake _ hnext =>
    rw [afterWake] at hnext
    split at hnext
    · cases hnext
      rfl
    · cases hnext
  | evaluate _ hnext =>
    rw [afterEvaluate] at hnext
    split at hnext
    · rw [answer, if_pos h.flag, h.result] at hnext
      cases hnext
      rfl
    · cases hnext
  | remove _ hnext =>
    rw [afterRemove] at hnext
    split at hnext
    · next ret msg heq =>
      cases hnext
      have halive := h.alive
      rwa [heq] at halive
    · cases hnext

theorem succeeding_run {events : List Event} (h : Succeeding s i c)
    (hsend : Event.send i false ∉ events) (hrun : run step s events = some t) :
    ∃ c', Succeeding t i c' := by
  induction events generalizing s c with
  | nil =>
    cases hrun
    exact ⟨c, h⟩
  | cons e events ih =>
    obtain ⟨m, hm, hr⟩ := run_cons_eq_some.mp hrun
    rw [List.mem_cons, not_or] at hsend
    obtain ⟨c', h'⟩ := succeeding_step h (Ne.symm hsend.1) hm
    exact ih h' hsend.2 hr

/-- The steps a call has still to do, if its packet is sent. -/
def finish (i : Nat) : Phase → List Event
  | .registered => [.send i true, .wait i, .wake i, .evaluate i, .remove i]
  | .sent => [.wait i, .wake i, .evaluate i, .remove i]
  | .waiting => [.wake i, .evaluate i, .remove i]
  | .woken => [.evaluate i, .remove i]
  | .answered _ _ => [.remove i]
  | .returned _ _ => []

theorem advance_of_call {n : Call → Option Phase} {phase : Phase} (hc : s.calls[i]? = some c)
    (hnext : n c = some phase) :
    advance s i n =
      some { s with calls := s.calls.modify i fun c => { c with phase := phase } } := by
  rw [advance, hc, Option.bind_some, hnext, Option.map_some]

theorem getElem?_modify_phase {calls : List Call} (hc : calls[i]? = some c) (phase : Phase) :
    (calls.modify i fun c => { c with phase := phase })[i]? = some { c with phase := phase } := by
  rw [List.getElem?_modify, hc]
  simp

/-- One step of a call that goes on. -/
theorem run_advance {n : Call → Option Phase} {phase : Phase} {e : Event} {events : List Event}
    (he : ∀ s, step s e = advance s i n) (hc : s.calls[i]? = some c)
    (hnext : n c = some phase)
    (hrest : ∀ m, m.calls[i]? = some { c with phase := phase } →
      ∃ t, run step m events = some t ∧ Returned t i true) :
    ∃ t, run step s (e :: events) = some t ∧ Returned t i true := by
  obtain ⟨t, ht, hret⟩ :=
    hrest { s with calls := s.calls.modify i fun c => { c with phase := phase } }
      (getElem?_modify_phase hc phase)
  refine ⟨t, run_cons_eq_some.mpr ⟨_, ?_, ht⟩, hret⟩
  rw [he, advance_of_call hc hnext]

/-- The call returns true as soon as it does the rest of its steps. -/
theorem Succeeding.finishes (h : Succeeding s i c) :
    ∃ t, run step s (finish i c.phase) = some t ∧ Returned t i true := by
  obtain ⟨⟨flag, tag, key, msg, result⟩, phase⟩ := c
  obtain ⟨hc, rfl, rfl, halive⟩ := h
  have hremove : ∀ s msg', s.calls[i]? = some ⟨⟨true, tag, key, msg, 0⟩, .answered true msg'⟩ →
      ∃ t, run step s [.remove i] = some t ∧ Returned t i true := by
    intro s msg' hc
    have hm : advance s i afterRemove = some _ :=
      advance_of_call hc (show afterRemove _ = some (.returned true msg') from rfl)
    refine ⟨{ s with
      calls := s.calls.modify i fun c => { c with phase := .returned true msg' }
      responseList := s.responseList.erase i }, run_cons_eq_some.mpr ⟨_, ?_, rfl⟩, ?_⟩
    · rw [step, hm, Option.map_some]
    · exact ⟨_, msg', getElem?_modify_phase hc _, rfl⟩
  have hevaluate : ∀ s, s.calls[i]? = some ⟨⟨true, tag, key, msg, 0⟩, .woken⟩ →
      ∃ t, run step s [.evaluate i, .remove i] = some t ∧ Returned t i true :=
    fun s hc => run_advance (n := afterEvaluate) (fun _ => rfl) hc rfl fun m hm => hremove m _ hm
  have hwake : ∀ s, s.calls[i]? = some ⟨⟨true, tag, key, msg, 0⟩, .waiting⟩ →
      ∃ t, run step s [.wake i, .evaluate i, .remove i] = some t ∧ Returned t i true :=
    fun s hc => run_advance (n := afterWake) (fun _ => rfl) hc rfl hevaluate
  have hwait : ∀ s, s.calls[i]? = some ⟨⟨true, tag, key, msg, 0⟩, .sent⟩ →
      ∃ t, run step s [.wait i, .wake i, .evaluate i, .remove i] = some t ∧ Returned t i true :=
    fun s hc => run_advance (n := afterWait) (fun _ => rfl) hc rfl hwake
  cases phase with
  | registered => exact run_advance (n := afterSend true) (fun _ => rfl) hc rfl hwait
  | sent => exact hwait s hc
  | waiting => exact hwake s hc
  | woken => exact hevaluate s hc
  | answered ret msg' =>
    cases ret with
    | false => cases halive
    | true => exact hremove s msg' hc
  | returned ret msg' =>
    cases ret with
    | false => cases halive
    | true => exact ⟨s, rfl, _, msg', hc, rfl⟩

/-- The call is outstanding and unanswered, and has not begun to wait. -/
structure Unanswered (s : Handler) (i : Nat) (c : Call) : Prop where
  call : s.calls[i]? = some c
  mem : i ∈ s.responseList
  flag : c.response.responseFlag = false
  phase : c.phase = .registered ∨ c.phase = .sent

/-- Its echo makes it succeed. -/
theorem Unanswered.succeeding (h : Unanswered s i c) (hcode : body.code = 0) :
    ∃ c', Succeeding (downDataEcho s c.response.tag c.response.key body) i c' := by
  refine ⟨{ c with response := { c.response with
    msg := body.text, result := body.code, responseFlag := true } }, ?_, rfl, hcode, ?_⟩
  · rw [getElem?_downDataEcho, h.call, Option.map_some, if_pos h.mem, complete,
      if_pos ⟨rfl, rfl, h.flag⟩]
  · show c.phase.failed = false
    rcases h.phase with hp | hp <;> rw [hp] <;> rfl

/-! ## All runs -/

theorem keyed_run {events : List Event} (hrun : run step Handler.init events = some s)
    (hok : Meets step spaced Handler.init events) : Keyed s :=
  run_invariant keyed_step keyed_init hok hrun

/-- A card is submitted, the echo comes before the wait, and the call succeeds. -/
def echoBeforeWait : List Event :=
  [.submit .brushCard, .send 0 true, .echo 0x12 0 (.result 0 "ok"), .wait 0, .wake 0, .evaluate 0,
    .remove 0]

/-- One call that fails at once. -/
def failedCall (i : Nat) : List Event := [.submit .brushCard, .send i false, .remove i]

/-- So many of them, the first one with number `i`. -/
def failedCalls : Nat → Nat → List Event
  | _, 0 => []
  | i, n + 1 => failedCall i ++ failedCalls (i + 1) n

/-- Only the first call is outstanding. -/
structure OnlyFirst (s : Handler) (n : Nat) : Prop where
  length : s.calls.length = n
  list : s.responseList = [0]
  cur : s.myCurkey = UInt16.ofNat n
  first : s.matchKey 0 = some (0x12, 0)

/-- Fewer than 65536 calls are outstanding. -/
def fewOutstanding (s : Handler) (_ : Event) : Prop := s.responseList.length < 65536

/-- What tells a call apart never changes. -/
theorem matchKey_step {e : Event} (h : step s e = some t) (hi : i < s.calls.length) :
    t.matchKey i = s.matchKey i := by
  have hc := List.getElem?_eq_getElem hi
  obtain ⟨r, phase, ht, hchange, -⟩ := step_call h hc
  rw [Handler.matchKey, Handler.matchKey, ht, hc, Option.map_some, Option.map_some,
    hchange.tag_key.1, hchange.tag_key.2]

theorem exists_advance {n : Call → Option Phase} {phase : Phase} (hc : s.calls[i]? = some c)
    (hnext : n c = some phase) :
    ∃ t, advance s i n = some t ∧ t.calls[i]? = some { c with phase := phase } ∧
      t.calls.length = s.calls.length ∧ t.responseList = s.responseList ∧
      t.myCurkey = s.myCurkey :=
  ⟨_, advance_of_call hc hnext, getElem?_modify_phase hc phase, List.length_modify .., rfl, rfl⟩

theorem onlyFirst_failedCall {n : Nat} (h : OnlyFirst s (n + 1)) :
    ∃ t, run step s (failedCall (n + 1)) = some t ∧ OnlyFirst t (n + 2) ∧
      Meets step fewOutstanding s (failedCall (n + 1)) := by
  have h1 : step s (.submit .brushCard) = some (submit s .brushCard) := rfl
  have hlist1 : (submit s .brushCard).responseList = [0, n + 1] := by
    rw [submit, h.list, h.length]
    rfl
  have hlen1 : (submit s .brushCard).calls.length = n + 2 := by
    rw [submit, List.length_append, h.length]
    rfl
  have hc1 : (submit s .brushCard).calls[n + 1]? =
      some ⟨⟨false, 0x12, s.myCurkey.toNat, "", -1⟩, .registered⟩ := by
    rw [submit, ← h.length, List.getElem?_concat_length]
    rfl
  obtain ⟨t2, ht2, hc2, hlen2, hlist2, hcur2⟩ := exists_advance (n := afterSend false) hc1 rfl
  obtain ⟨t3, ht3, -, hlen3, hlist3, hcur3⟩ := exists_advance (n := afterRemove) hc2 rfl
  have h2 : step (submit s .brushCard) (.send (n + 1) false) = some t2 := ht2
  have h3 : step t2 (.remove (n + 1)) =
      some { t3 with responseList := t3.responseList.erase (n + 1) } := by
    rw [step, ht3, Option.map_some]
  refine ⟨{ t3 with responseList := t3.responseList.erase (n + 1) },
    run_cons_eq_some.mpr ⟨_, h1, run_cons_eq_some.mpr ⟨_, h2, run_cons_eq_some.mpr ⟨_, h3, rfl⟩⟩⟩,
    ⟨?_, ?_, ?_, ?_⟩, ?_⟩
  · show t3.calls.length = n + 2
    rw [hlen3, hlen2, hlen1]
  · show t3.responseList.erase (n + 1) = [0]
    rw [hlist3, hlist2, hlist1]
    simp
  · show t3.myCurkey = UInt16.ofNat (n + 2)
    rw [hcur3, hcur2, show n + 2 = n + 1 + 1 from rfl, UInt16.ofNat_add, ← h.cur]
    rfl
  · rw [matchKey_step h3 (by rw [hlen2, hlen1]; omega), matchKey_step h2 (by rw [hlen1]; omega),
      matchKey_step h1 (by rw [h.length]; omega), h.first]
  · have hfew : ∀ e, fewOutstanding s e := fun e => by simp [fewOutstanding, h.list]
    have hfew1 : ∀ e, fewOutstanding (submit s .brushCard) e := fun e => by
      simp [fewOutstanding, hlist1]
    have hfew2 : ∀ e, fewOutstanding t2 e := fun e => by simp [fewOutstanding, hlist2, hlist1]
    simp only [failedCall, Meets, h1, h2, h3]
    exact ⟨hfew _, hfew1 _, hfew2 _, trivial⟩

theorem onlyFirst_failedCalls {n m : Nat} (h : OnlyFirst s (n + 1)) :
    ∃ t, run step s (failedCalls (n + 1) m) = some t ∧ OnlyFirst t (n + 1 + m) ∧
      Meets step fewOutstanding s (failedCalls (n + 1) m) := by
  induction m generalizing s n with
  | zero => exact ⟨s, rfl, h, trivial⟩
  | succ m ih =>
    obtain ⟨t, ht, hfirst, hfew⟩ := onlyFirst_failedCall h
    obtain ⟨u, hu, hfirst', hfew'⟩ := ih hfirst
    refine ⟨u, run_append_eq_some.mpr ⟨t, ht, hu⟩, ?_, hfew.glue ht hfew'⟩
    rwa [show n + 1 + (m + 1) = n + 1 + 1 + m by omega]

/-- A call that is outstanding while 65535 others come and go has the key of the next one. -/
def roundTheClock : List Event :=
  [.submit .brushCard] ++ failedCalls 1 65535 ++ [.submit .brushCard]

end ProgrammingPath.Hmi.Echo
