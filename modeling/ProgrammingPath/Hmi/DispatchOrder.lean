import ProgrammingPath.Lib.Run
import ProgrammingPath.Lib.Table

/-!
# Orders dispatched to the HMI

The server dispatches an order with a message 0x21. `downData_0x21` looks whether the order is
there and refuses it then; otherwise `onSubimtOrder` stores it with `REPLACE INTO`, which takes the
place of a row that has the same number, and of its counters.

The number stands in the object `FDAT_Data` of the message, and `onSubimtOrder` takes it from
there. The check takes it from the message itself.
-/

namespace ProgrammingPath.Hmi

open ProgrammingPath.Lib

/-! ## JSON -/

/-- `QJsonValue`. A number is a double, that is a fraction. -/
inductive Json where
  | null
  | bool (b : Bool)
  | num (dbl : Rat)
  | str (s : String)
  | arr (elems : List Json)
  | obj (fields : List (String × Json))

/-- `QJsonObject`. -/
abbrev JsonObject := List (String × Json)

/-- `QJsonObject::operator[]`: the value of a key, null when there is none. -/
def JsonObject.value (json : JsonObject) (key : String) : Json :=
  ((json.find? (fun field => field.1 == key)).map Prod.snd).getD .null

/-- `QJsonValue::toString`, the null string for a value that is none. -/
def Json.toQString : Json → Option String
  | .str s => some s
  | _ => none

/-- `QJsonValue::toInt`: a number that is an `int`, 0 for everything else. -/
def Json.toInt : Json → Int
  | .num dbl =>
    if dbl.den = 1 ∧ -2147483648 ≤ dbl.num ∧ dbl.num < 2147483648 then dbl.num else 0
  | _ => 0

def Json.toObject : Json → JsonObject
  | .obj fields => fields
  | _ => []

def Json.toArray : Json → List Json
  | .arr elems => elems
  | _ => []

/-! ## The tables -/

/-- A row of `Mes_DispatchOrder`. A null string is stored as NULL. -/
structure DispatchOrder where
  moDispatchNo : String
  moProcCode : Option String
  moProcName : Option String
  moStaCode : Option String
  moStaName : Option String
  moStandCycle : Int
  moTotalNum : Int
  moMultiNum : Int
  moBadReasonNum : Int
  mainOrderFlag : Int
  no1 : Option Int := none
  no2 : Option Int := none
  str1 : Option String := none
  str2 : Option String := none
  createdTime : String
  deriving DecidableEq, Repr

/-- A row of `Mes_DispatchOrder_Item`. -/
structure DispatchOrderItem where
  id : Nat
  moDispatchNo : String
  pcsMo : Option String
  pcsItemNo : Option String
  pcsItemName : Option String
  pcsMouldNo : Option String
  pcsDispatchQty : Int
  pcsSocketNum1 : Int
  pcsBadQty : Int
  /-- the array whose text is stored -/
  pcsBadData : List Json
  totalOkNum : Option Int := none
  curClassProductNo : Option Int := none
  curClassBadNo : Option Int := none
  createdTime : String

structure OrderDb where
  orders : Table DispatchOrder.moDispatchNo
  items : AutoTable DispatchOrderItem.id

/-- `onCountPK`: nothing equals NULL. -/
def onCountPK (db : OrderDb) (no : Option String) : Nat :=
  (db.orders.rows.filter fun r => some r.moDispatchNo == no).length

/-- `onAddMOTotalNum`. -/
def onAddMOTotalNum (db : OrderDb) (no : Option String) (value : Int) : Bool × OrderDb :=
  if onCountPK db no = 0 then (false, db)
  else
    (true, { db with
      orders := db.orders.update (fun r => some r.moDispatchNo == no)
        (fun r => { r with moTotalNum := r.moTotalNum + value }) (fun _ => rfl) })

/-- `onDeleteDispatchNo`. -/
def onDeleteDispatchNo (db : OrderDb) (no : String) : OrderDb where
  orders := db.orders.delete fun r => r.moDispatchNo == no
  items := db.items.delete fun r => r.moDispatchNo == no

/-! ## A message 0x21 -/

/-- The row that `REPLACE INTO Mes_DispatchOrder` stores. -/
def orderRow (no : String) (json : JsonObject) (now : String) : DispatchOrder where
  moDispatchNo := no
  moProcCode := (json.value "MO_ProcCode").toQString
  moProcName := (json.value "MO_ProcName").toQString
  moStaCode := (json.value "MO_StaCode").toQString
  moStaName := (json.value "MO_StaName").toQString
  moStandCycle := (json.value "MO_StandCycle").toInt
  moTotalNum := (json.value "MO_TotalNum").toInt
  moMultiNum := (json.value "MO_MultiNum").toInt
  moBadReasonNum := (json.value "MO_BadReasonNum").toInt
  mainOrderFlag := (json.value "FDAT_DataType").toInt
  createdTime := now

/-- The row of an item, with the number it has or gets. -/
def itemRow (no : String) (json : JsonObject) (now : String) (id : Nat) : DispatchOrderItem where
  id := id
  moDispatchNo := no
  pcsMo := (json.value "PCS_MO").toQString
  pcsItemNo := (json.value "PCS_ItemNO").toQString
  pcsItemName := (json.value "PCS_ItemName").toQString
  pcsMouldNo := (json.value "PCS_MouldNo").toQString
  pcsDispatchQty := (json.value "PCS_DispatchQty").toInt
  pcsSocketNum1 := (json.value "PCS_SocketNum1").toInt
  pcsBadQty := (json.value "PCS_BadQty").toInt
  pcsBadData := (json.value "BadData").toArray
  createdTime := now

/-- A turn of the loop over `MO_Data`: an item of this order with this number is stored again. -/
def submitItem (no now : String) (items : AutoTable DispatchOrderItem.id) (json : JsonObject) :
    AutoTable DispatchOrderItem.id :=
  items.save
    (fun r => r.moDispatchNo == no && r.pcsItemNo.isSome &&
      r.pcsItemNo == (json.value "PCS_ItemNO").toQString)
    (itemRow no json now) (fun _ => rfl)

/-- `onSubimtOrder`; `now` is the time that the table enters. -/
def onSubimtOrder (db : OrderDb) (json : JsonObject) (now : String) : Bool × OrderDb :=
  let fdatDataJson := (json.value "FDAT_Data").toObject
  match (fdatDataJson.value "MO_DispatchNo").toQString with
  | none => (false, db)
  | some no =>
    if no.length = 0 then (false, db)
    else
      (true, {
        orders := db.orders.replace (orderRow no fdatDataJson now)
        items := ((fdatDataJson.value "MO_Data").toArray.map Json.toObject).foldl
          (submitItem no now) db.items })

/-- A call of `sendD2S`. -/
structure D2S where
  tag : UInt8
  key : UInt16
  msg : String
  deriving DecidableEq, Repr

/-- The text of an object with the member `result`, as `QJsonDocument::toJson` writes it. -/
def resultJson (result : Int) : String :=
  "\x7b\n    \"result\": " ++ toString result ++ "\n\x7d\n"

/-- `downData_0x21`: the tables afterwards and what is sent. -/
def downData_0x21 (db : OrderDb) (key : UInt16) (obj : JsonObject) (now : String) :
    OrderDb × List D2S :=
  let moDispatchNo := (obj.value "MO_DispatchNo").toQString
  if onCountPK db moDispatchNo ≠ 0 then (db, [⟨0x21, key, resultJson (-1)⟩])
  else ((onSubimtOrder db obj now).2, [])

/-! ## Stored orders -/

/-- The number that the check looks for. -/
def checkedNo (obj : JsonObject) : Option String := (obj.value "MO_DispatchNo").toQString

/-- The number under which `onSubimtOrder` stores. -/
def submittedNo (obj : JsonObject) : Option String :=
  ((obj.value "FDAT_Data").toObject.value "MO_DispatchNo").toQString

/-- There is an order with this number. -/
def OrderDb.Stored (db : OrderDb) (no : Option String) : Prop :=
  ∃ r ∈ db.orders.rows, some r.moDispatchNo = no

instance (db : OrderDb) (no : Option String) : Decidable (db.Stored no) :=
  inferInstanceAs (Decidable (∃ r ∈ _, _))

/-- A message is refused: no order is touched, and the server is told so. -/
def Refused (db : OrderDb) (key : UInt16) (obj : JsonObject) (now : String) : Prop :=
  (downData_0x21 db key obj now).1.orders.rows = db.orders.rows ∧
    (downData_0x21 db key obj now).2 = [⟨0x21, key, resultJson (-1)⟩]

instance (db : OrderDb) (key : UInt16) (obj : JsonObject) (now : String) :
    Decidable (Refused db key obj now) := inferInstanceAs (Decidable (_ ∧ _))

theorem onCountPK_ne_zero_iff {db : OrderDb} {no : Option String} :
    onCountPK db no ≠ 0 ↔ db.Stored no := by
  rw [onCountPK, Ne, List.length_eq_zero_iff, List.filter_eq_nil_iff]
  simp [OrderDb.Stored]

variable {db db' : OrderDb}

/-- Where the check finds an order, the message is refused. -/
theorem downData_of_stored {obj : JsonObject} (h : db.Stored (checkedNo obj)) (key : UInt16)
    (now : String) : downData_0x21 db key obj now = (db, [⟨0x21, key, resultJson (-1)⟩]) :=
  if_pos (onCountPK_ne_zero_iff.mpr h)

/-- Where it finds none, the order is submitted without an answer. -/
theorem downData_of_not_stored {obj : JsonObject} (h : ¬ db.Stored (checkedNo obj)) (key : UInt16)
    (now : String) : downData_0x21 db key obj now = ((onSubimtOrder db obj now).2, []) :=
  if_neg fun hcount => h (onCountPK_ne_zero_iff.mp hcount)

/-- The message is refused exactly when the check finds an order. -/
theorem refused_iff {key : UInt16} {obj : JsonObject} {now : String} :
    Refused db key obj now ↔ db.Stored (checkedNo obj) := by
  constructor
  · rintro ⟨-, hanswer⟩
    by_contra hstored
    rw [downData_of_not_stored hstored] at hanswer
    cases hanswer
  · intro hstored
    rw [Refused, downData_of_stored hstored]
    exact ⟨rfl, rfl⟩

/-- Submitting an order touches no order with another number. -/
theorem mem_onSubimtOrder {json : JsonObject} {now : String} {r : DispatchOrder}
    (hr : r ∈ db.orders.rows) (hne : some r.moDispatchNo ≠ submittedNo json) :
    r ∈ (onSubimtOrder db json now).2.orders.rows := by
  unfold onSubimtOrder
  dsimp only
  split
  · exact hr
  · next no hno =>
    split
    · exact hr
    · refine Table.mem_replace.mpr (.inl ⟨hr, fun heq => hne ?_⟩)
      exact (congrArg some heq).trans hno.symm

/-! ## Counters over a run -/

/-- What happens to the tables of orders. -/
inductive OrderEvent
  | dispatch (key : UInt16) (obj : JsonObject) (now : String)
  | addMOTotalNum (no : Option String) (value : Int)
  | deleteDispatchNo (no : String)

def orderStep (db : OrderDb) : OrderEvent → Option OrderDb
  | .dispatch key obj now => some (downData_0x21 db key obj now).1
  | .addMOTotalNum no value => some (onAddMOTotalNum db no value).2
  | .deleteDispatchNo no => some (onDeleteDispatchNo db no)

/-- A dispatched order that is stored is found by the check, and counters are only added to. -/
def Checked (db : OrderDb) : OrderEvent → Prop
  | .dispatch _ obj _ => db.Stored (submittedNo obj) → db.Stored (checkedNo obj)
  | .addMOTotalNum _ value => 0 ≤ value
  | .deleteDispatchNo _ => True

instance : ∀ (db : OrderDb) (e : OrderEvent), Decidable (Checked db e)
  | _, .dispatch _ _ _ => inferInstanceAs (Decidable (_ → _))
  | _, .addMOTotalNum _ _ => inferInstanceAs (Decidable (_ ≤ _))
  | _, .deleteDispatchNo _ => inferInstanceAs (Decidable True)

/-- The order is there with at least this counter. -/
def CountedUp (no : String) (total : Int) (db : OrderDb) : Prop :=
  ∃ r ∈ db.orders.rows, r.moDispatchNo = no ∧ total ≤ r.moTotalNum

variable {no : String} {total : Int}

theorem CountedUp.stored (h : CountedUp no total db) : db.Stored (some no) := by
  obtain ⟨r, hr, hno, -⟩ := h
  exact ⟨r, hr, congrArg some hno⟩

theorem CountedUp.dispatch (h : CountedUp no total db) {key : UInt16} {obj : JsonObject}
    {now : String} (hok : Checked db (.dispatch key obj now)) :
    CountedUp no total (downData_0x21 db key obj now).1 := by
  by_cases hstored : db.Stored (checkedNo obj)
  · rw [downData_of_stored hstored]
    exact h
  · -- the order that is submitted is not there, so it is another one
    rw [downData_of_not_stored hstored]
    have hother : ¬ db.Stored (submittedNo obj) := fun hsub => hstored (hok hsub)
    obtain ⟨r, hr, hno, hle⟩ := h
    exact ⟨r, mem_onSubimtOrder hr fun heq => hother ⟨r, hr, heq⟩, hno, hle⟩

theorem CountedUp.addMOTotalNum (h : CountedUp no total db) {k : Option String} {value : Int}
    (hvalue : 0 ≤ value) : CountedUp no total (onAddMOTotalNum db k value).2 := by
  unfold onAddMOTotalNum
  split
  · exact h
  · obtain ⟨r, hr, hno, hle⟩ := h
    refine ⟨_, List.mem_map_of_mem hr, ?_⟩
    split
    · exact ⟨hno, show total ≤ r.moTotalNum + value by omega⟩
    · exact ⟨hno, hle⟩

theorem CountedUp.deleteDispatchNo (h : CountedUp no total db) {k : String} (hne : k ≠ no) :
    CountedUp no total (onDeleteDispatchNo db k) := by
  obtain ⟨r, hr, rfl, hle⟩ := h
  exact ⟨r, Table.mem_delete.mpr ⟨hr, beq_eq_false_iff_ne.mpr hne.symm⟩, rfl, hle⟩

theorem CountedUp.step (h : CountedUp no total db) {e : OrderEvent} (hok : Checked db e)
    (hdel : e ≠ .deleteDispatchNo no) (hstep : orderStep db e = some db') :
    CountedUp no total db' := by
  cases e with
  | dispatch key obj now =>
    cases hstep
    exact h.dispatch hok
  | addMOTotalNum k value =>
    cases hstep
    exact h.addMOTotalNum hok
  | deleteDispatchNo k =>
    cases hstep
    exact h.deleteDispatchNo fun heq => hdel (congrArg OrderEvent.deleteDispatchNo heq)

/-- As long as the order is not deleted, its counter never falls. -/
theorem CountedUp.run {events : List OrderEvent} (h : CountedUp no total db)
    (hok : Meets orderStep Checked db events) (hdel : OrderEvent.deleteDispatchNo no ∉ events)
    (hrun : Lib.run orderStep db events = some db') : CountedUp no total db' := by
  induction events generalizing db with
  | nil =>
    cases hrun
    exact h
  | cons e events ih =>
    obtain ⟨db₁, hstep, hrest⟩ := run_cons_eq_some.mp hrun
    obtain ⟨hne, hdel'⟩ := not_or.mp fun hmem => hdel (List.mem_cons.mpr hmem)
    exact ih (h.step hok.head (Ne.symm hne) hstep) (hok.tail hstep) hdel' hrest

/-- An order that is stored is refused exactly when the check finds an order, too; and over any run
in which it always does, no counter falls before its order is deleted. -/
theorem dispatch_keeps_orders (db : OrderDb) :
    (∀ key obj now, db.Stored (submittedNo obj) →
      (Refused db key obj now ↔ db.Stored (checkedNo obj))) ∧
    ∀ events db', Meets orderStep Checked db events → Lib.run orderStep db events = some db' →
      ∀ r ∈ db.orders.rows, OrderEvent.deleteDispatchNo r.moDispatchNo ∉ events →
        ∃ r' ∈ db'.orders.rows, r'.moDispatchNo = r.moDispatchNo ∧
          r.moTotalNum ≤ r'.moTotalNum :=
  ⟨fun _ _ _ _ => refused_iff, fun _ _ hok hrun r hr hdel =>
    CountedUp.run ⟨r, hr, rfl, Int.le_refl _⟩ hok hdel hrun⟩

/-- One order, in production. -/
def oneOrder : OrderDb where
  orders :=
    ⟨[{ moDispatchNo := "A1", moProcCode := none, moProcName := none, moStaCode := none,
        moStaName := none, moStandCycle := 9000, moTotalNum := 500, moMultiNum := 1,
        moBadReasonNum := 0, mainOrderFlag := 0, createdTime := "08:00" }],
      List.nodup_singleton _⟩
  items := .empty

/-- The order as the server dispatches it again: its number stands in `FDAT_Data`. -/
def dispatchA1 : JsonObject :=
  [("FDAT_DataType", .num 0), ("FDAT_Data", .obj [("MO_DispatchNo", .str "A1")])]

/-- With the number in the message itself, too, the order is refused. -/
theorem dispatch_keeps_orders_twice :
    Refused oneOrder 7 (("MO_DispatchNo", .str "A1") :: dispatchA1) "09:00" ∧
      ∃ db', Lib.run orderStep oneOrder [.addMOTotalNum (some "A1") 1] = some db' ∧
        ∃ r ∈ db'.orders.rows, r.moDispatchNo = "A1" ∧ 500 ≤ r.moTotalNum := by
  obtain ⟨hrefused, hrun⟩ := dispatch_keeps_orders oneOrder
  exact ⟨(hrefused _ _ _ (by decide)).mpr (by decide), _, rfl,
    hrun [.addMOTotalNum (some "A1") 1] _ (by decide) rfl _ (List.mem_singleton_self _) (by simp)⟩

/-- As it is dispatched, it takes the place of the order in production. -/
theorem not_refused_dispatchA1 :
    oneOrder.Stored (submittedNo dispatchA1) ∧ ¬ Refused oneOrder 7 dispatchA1 "09:00" ∧
      (downData_0x21 oneOrder 7 dispatchA1 "09:00").1.orders.rows.map (·.moTotalNum) = [0] := by
  decide +kernel

end ProgrammingPath.Hmi
