import ProgrammingPath.Lib.FirstMatch
import ProgrammingPath.Qt.Dom
import ProgrammingPath.Qt.Number

/-!
# Properties as XML (`Sqlite/Entity/absentity.cpp`)

An entity binds its variables to properties, each with a name and a type. `PropertyBaseToXML` writes
an element for the object with a child for each property, and `XMLRead` goes through the children of
an element and sets the property that has the name of the child. Both go down into objects that are
properties, or in lists. What is written and read again gives the object back (`xmlRead_toXML`),
whatever the object held that it is read into.

A property is given with the value of its variable. A list of entities is read into new objects, and
what their constructors leave in them is given for each kind of list.
-/

namespace ProgrammingPath.Mes

open ProgrammingPath.Qt ProgrammingPath.Qt.QString ProgrammingPath.Lib

/-! ## Objects -/

/-- The lists of entities among the types of properties. -/
inductive ListKind where
  | itemProduct
  | itemMaterial
  | inspectionProj
  | adjustData
  | productInfo
  | funcData
  deriving DecidableEq, Repr

mutual

/-- A variable, by the type of its property. -/
inductive Value where
  | asInt (v : Int32)
  | asQStr (str : QString)
  | asEntity (object : Object)
  | asQListInt (list : List Int32)
  | asQList (kind : ListKind) (list : List Object)

/-- An object with its class name and its properties. -/
inductive Object where
  | mk (className : QString) (propertys : List (QString × Value))

end

def Object.className : Object → QString
  | .mk className _ => className

/-- The objects that `T opt;` makes for a kind of list. -/
abbrev NewObject := ListKind → Object

/-! ## Writing -/

/-- "value", the tag of a number in a list. -/
def valueTag : QString := [0x76, 0x61, 0x6C, 0x75, 0x65]

mutual

/-- `PropertyBaseToXML`, with the element of the document. -/
def Object.toXML : Object → Node
  | .mk className propertys => .element className (propertysToXML propertys)

def propertysToXML : List (QString × Value) → List Node
  | [] => []
  | (varName, value) :: propertys => .element varName value.toXML :: propertysToXML propertys

/-- The children of the node of a property. -/
def Value.toXML : Value → List Node
  | .asInt v => [.text (number v)]
  | .asQStr str => [.text str]
  | .asEntity object => [object.toXML]
  | .asQListInt list => list.map fun v => .element valueTag [.text (number v)]
  | .asQList _ list => listToXML list

/-- `_ToXML`. -/
def listToXML : List Object → List Node
  | [] => []
  | object :: list => object.toXML :: listToXML list

end

/-! ## Reading -/

mutual

/-- `XMLRead`. -/
def xmlRead (fresh : NewObject) : Node → Object → Object
  | .element _ nodes, .mk className propertys => .mk className (readPropertys fresh nodes propertys)
  | .text _, object => object

/-- The loop over the children: each sets the property of its name, if there is one. -/
def readPropertys (fresh : NewObject) :
    List Node → List (QString × Value) → List (QString × Value)
  | [], propertys => propertys
  | node :: nodes, propertys =>
    readPropertys fresh nodes (updateFirst (fun p => p.1 == node.tagName)
      (fun p => (p.1, readValue fresh node p.2)) propertys)

/-- The `switch` on the type of the property. -/
def readValue (fresh : NewObject) : Node → Value → Value
  | element, .asInt _ => .asInt (toInt element.elementText)
  | element, .asQStr _ => .asQStr element.elementText
  | .element _ (node :: _), .asEntity object => .asEntity (xmlRead fresh node object)
  | _, .asEntity object => .asEntity object
  | element, .asQListInt _ => .asQListInt (element.childNodes.map fun n => toInt n.elementText)
  | .element _ nodes, .asQList kind _ => .asQList kind (readList fresh kind nodes)
  | .text _, .asQList kind _ => .asQList kind []

/-- `_XMLRead`. -/
def readList (fresh : NewObject) (kind : ListKind) : List Node → List Object
  | [] => []
  | node :: nodes => xmlRead fresh node (fresh kind) :: readList fresh kind nodes

end

/-- `XMLToPropertyBase`. A text that is no document has an element without a name. -/
def xmlToPropertyBase (q : TextOf) (fresh : NewObject) (xml : QString) (object : Object) :
    Bool × Object :=
  let root := (q.setContent xml).getD (.text [])
  if root.tagName = object.className then (true, xmlRead fresh root object) else (false, object)

/-! ## Classes -/

mutual

/-- An object without what is in its variables: its class. -/
def Object.shape : Object → Object
  | .mk className propertys => .mk className (shapes propertys)

def shapes : List (QString × Value) → List (QString × Value)
  | [] => []
  | (varName, value) :: propertys => (varName, value.shape) :: shapes propertys

def Value.shape : Value → Value
  | .asInt _ => .asInt 0
  | .asQStr _ => .asQStr []
  | .asEntity object => .asEntity object.shape
  | .asQListInt _ => .asQListInt []
  | .asQList kind _ => .asQList kind []

end

/-- Two objects are of one class. -/
def SameClass (a b : Object) : Prop := a.shape = b.shape

mutual

/-- The names of the properties of an object are distinct, and what is in a list is of the class of
the list; so in every object within. -/
def Object.WellFormed (fresh : NewObject) : Object → Prop
  | .mk _ propertys => (propertys.map Prod.fst).Nodup ∧ PropertysWellFormed fresh propertys

def PropertysWellFormed (fresh : NewObject) : List (QString × Value) → Prop
  | [] => True
  | (_, value) :: propertys => value.WellFormed fresh ∧ PropertysWellFormed fresh propertys

def Value.WellFormed (fresh : NewObject) : Value → Prop
  | .asInt _ => True
  | .asQStr _ => True
  | .asEntity object => object.WellFormed fresh
  | .asQListInt _ => True
  | .asQList kind list => ListWellFormed fresh kind list

def ListWellFormed (fresh : NewObject) (kind : ListKind) : List Object → Prop
  | [] => True
  | object :: list => SameClass object (fresh kind) ∧ object.WellFormed fresh ∧
    ListWellFormed fresh kind list

end

/-! ## What is written is read -/

open Node (normals normals_cons_element elementText_text)

/-- The element of an object is read again. -/
theorem normals_cons_toXML (object : Object) (nodes : List Node) :
    normals (object.toXML :: nodes) = object.toXML.normal :: normals nodes := by
  cases object with
  | mk className propertys => rw [Object.toXML, normals_cons_element, Node.normal]

theorem readInts (list : List Int32) :
    (normals (list.map fun v => .element valueTag [.text (number v)])).map
      (fun n => toInt n.elementText) = list := by
  induction list with
  | nil => rfl
  | cons v list ih =>
    rw [List.map_cons, normals_cons_element, List.map_cons, elementText_text, toInt_number, ih]

/-- The first child of the rest sets the first property of the rest. -/
theorem readPropertys_cons {fresh : NewObject} {nodes : List Node}
    {done rest : List (QString × Value)} {varName : QString} {children : List Node} {value : Value}
    (h : ∀ p ∈ done, p.1 ≠ varName) :
    readPropertys fresh (.element varName children :: nodes) (done ++ (varName, value) :: rest) =
      readPropertys fresh nodes
        ((done ++ [(varName, readValue fresh (.element varName children) value)]) ++ rest) := by
  rw [readPropertys, updateFirst_append_cons rest _ (by simp [Node.tagName]), List.append_assoc]
  · rfl
  · intro p hp
    simpa [Node.tagName] using h p hp

mutual

/-- Reading gives the object that was written, by induction on it: an object of its class, with
whatever values, becomes the object. -/
theorem xmlRead_toXML {fresh : NewObject} :
    ∀ {object target : Object}, object.WellFormed fresh → SameClass target object →
      xmlRead fresh object.toXML.normal target = object
  | .mk className propertys, .mk className' propertys', hw, hs => by
    simp only [SameClass, Object.shape, Object.mk.injEq] at hs
    obtain ⟨rfl, hs⟩ := hs
    rw [Object.toXML, Node.normal, xmlRead]
    rw [Object.WellFormed] at hw
    congr 1
    have hread := readPropertys_toXML hw.2 hw.1 (List.forall_mem_nil _) hs
    rwa [List.nil_append, List.nil_append] at hread

/-- The properties that are left, after some that have been read. -/
theorem readPropertys_toXML {fresh : NewObject} :
    ∀ {propertys done target : List (QString × Value)}, PropertysWellFormed fresh propertys →
      (propertys.map Prod.fst).Nodup → (∀ p ∈ done, p.1 ∉ propertys.map Prod.fst) →
      shapes target = shapes propertys →
      readPropertys fresh (normals (propertysToXML propertys)) (done ++ target) = done ++ propertys
  | [], done, [], _, _, _, _ => by
    rw [propertysToXML, normals, readPropertys]
  | [], _, (_, _) :: _, _, _, _, hs => by
    simp [shapes] at hs
  | (_, _) :: _, _, [], _, _, _, hs => by
    simp [shapes] at hs
  | (varName, value) :: propertys, done, (varName', value') :: target, hw, hn, hd, hs => by
    simp only [shapes, List.cons.injEq, Prod.mk.injEq] at hs
    obtain ⟨⟨rfl, hvalue⟩, hs⟩ := hs
    rw [PropertysWellFormed] at hw
    rw [List.map_cons, List.nodup_cons] at hn
    have hdone : ∀ p ∈ done, p.1 ≠ varName' := fun p hp he =>
      hd p hp (by rw [he]; exact List.mem_cons_self)
    rw [propertysToXML, normals_cons_element, readPropertys_cons hdone,
      readValue_toXML hw.1 hvalue, readPropertys_toXML hw.2 hn.2 ?_ hs, List.append_assoc]
    · rfl
    · intro p hp
      obtain hp | hp := List.mem_append.mp hp
      · exact fun hmem => hd p hp (List.mem_cons_of_mem _ hmem)
      · rw [List.mem_singleton.mp hp]
        exact hn.1

/-- A property of any type. -/
theorem readValue_toXML {fresh : NewObject} :
    ∀ {value target : Value} {varName : QString}, value.WellFormed fresh →
      target.shape = value.shape →
      readValue fresh (.element varName (normals value.toXML)) target = value
  | .asInt v, target, varName, _, hs => by
    cases target <;> simp [Value.shape] at hs
    rw [Value.toXML, readValue, elementText_text, toInt_number]
  | .asQStr str, target, varName, _, hs => by
    cases target <;> simp [Value.shape] at hs
    rw [Value.toXML, readValue, elementText_text]
  | .asEntity object, target, varName, hw, hs => by
    cases target <;> simp [Value.shape] at hs
    rw [Value.WellFormed] at hw
    rw [Value.toXML, normals_cons_toXML, readValue, xmlRead_toXML hw hs]
  | .asQListInt list, target, varName, _, hs => by
    cases target <;> simp [Value.shape] at hs
    rw [Value.toXML, readValue, Node.childNodes, readInts]
  | .asQList kind list, target, varName, hw, hs => by
    cases target <;> simp [Value.shape] at hs
    rw [Value.WellFormed] at hw
    rw [Value.toXML, readValue, hs, readList_toXML hw]

/-- The elements of a list are read into new objects. -/
theorem readList_toXML {fresh : NewObject} {kind : ListKind} :
    ∀ {list : List Object}, ListWellFormed fresh kind list →
      readList fresh kind (normals (listToXML list)) = list
  | [], _ => by
    rw [listToXML, normals, readList]
  | object :: list, hw => by
    rw [ListWellFormed] at hw
    rw [listToXML, normals_cons_toXML, readList, xmlRead_toXML hw.2.1 hw.1.symm, readList_toXML hw.2.2]

end

/-- **The round trip.** If the document of an object is kept by its text, an object of the same class
is read back from the text as the object, whatever it held. -/
theorem xmlToPropertyBase_toXML (q : TextOf) (fresh : NewObject) (object target : Object)
    (hq : q.Keeps object.toXML) (hw : object.WellFormed fresh) (hs : SameClass target object) :
    xmlToPropertyBase q fresh (q.toString object.toXML) target = (true, object) := by
  have hname : object.toXML.normal.tagName = target.className := by
    cases object with
    | mk className propertys =>
      cases target with
      | mk className' propertys' =>
        simp only [SameClass, Object.shape, Object.mk.injEq] at hs
        rw [Object.toXML, Node.normal]
        exact hs.1.symm
  simp only [xmlToPropertyBase, show q.setContent _ = _ from hq, Option.getD_some, if_pos hname,
    xmlRead_toXML hw hs]

/-! ## The classes of the lists (`Sqlite/Entity/UpXMLData`) -/

def ascii (s : List Char) : QString := s.map fun c => UInt8.ofNat c.toNat

/-- The new objects; some constructors leave numbers as they are in memory. -/
def newObject (unset : Int32) : NewObject
  | .itemProduct => .mk (ascii ['I', 't', 'e', 'm', 'P', 'r', 'o', 'd', 'u', 'c', 't']) [
      (ascii ['M', 'O'], .asQStr []),
      (ascii ['I', 't', 'e', 'm', 'N', 'O'], .asQStr []),
      (ascii ['D', 'i', 's', 'p', 'a', 't', 'c', 'h', 'Q', 't', 'y'], .asInt 0),
      (ascii ['S', 'o', 'c', 'k', 'e', 't', 'N', 'u', 'm'], .asInt 0)]
  | .itemMaterial => .mk (ascii ['I', 't', 'e', 'm', 'M', 'a', 't', 'e', 'r', 'i', 'a', 'l']) [
      (ascii ['M', 'a', 't', 'e', 'r', 'i', 'a', 'l', 'N', 'O'], .asQStr []),
      (ascii ['M', 'a', 't', 'e', 'r', 'i', 'a', 'l', 'N', 'a', 'm', 'e'], .asQStr []),
      (ascii ['B', 'a', 't', 'c', 'h', 'N', 'O'], .asQStr []),
      (ascii ['F', 'e', 'e', 'd', 'i', 'n', 'g', 'Q', 't', 'y'], .asInt 0),
      (ascii ['F', 'e', 'e', 'd', 'i', 'n', 'g', 'T', 'i', 'm', 'e'], .asQStr [])]
  | .inspectionProj => .mk (ascii ['I', 'n', 's', 'p', 'e', 'c', 't', 'i', 'o', 'n', 'P', 'r', 'o', 'j']) [
      (ascii ['N', 'O'], .asInt unset),
      (ascii ['R', 'e', 's', 'u', 'l', 't'], .asInt unset),
      (ascii ['B', 'r', 'a', 'n', 'd'], .asQStr [])]
  | .adjustData => .mk (ascii ['A', 'd', 'j', 'u', 's', 't', 'D', 'a', 't', 'a']) [
      (ascii ['I', 't', 'e', 'm', 'N', 'O'], .asQStr []),
      (ascii ['C', 'u', 'r', 'C', 'h', 'a', 'n', 'g', 'e', 'Q', 't', 'y'], .asInt 0),
      (ascii ['N', 'u', 'l', 'l', 'Q', 't', 'y'], .asInt 0),
      (ascii ['P', 'r', 'o', 'd', 'Q', 't', 'y'], .asInt 0)]
  | .productInfo => .mk (ascii ['P', 'r', 'o', 'd', 'u', 'c', 't', 'I', 'n', 'f', 'o']) [
      (ascii ['I', 't', 'e', 'm', 'N', 'o'], .asQStr []),
      (ascii ['B', 'a', 'd', 'D', 'a', 't', 'a'], .asQListInt [])]
  | .funcData => .mk (ascii ['F', 'u', 'n', 'c', 'D', 'a', 't', 'a']) [
      (ascii ['I', 't', 'e', 'm', 'N', 'O'], .asQStr []),
      (ascii ['C', 'u', 'r', 'C', 'h', 'a', 'n', 'g', 'e', 'Q', 't', 'y'], .asInt unset)]

/-- Their properties have distinct names. -/
theorem newObject_wellFormed (unset : Int32) (kind : ListKind) :
    (newObject unset kind).WellFormed (newObject unset) := by
  cases kind <;> simp [newObject, Object.WellFormed, PropertysWellFormed, Value.WellFormed, ascii]

/-- `OtherSetInfo::AdjSock`, which has a list of products. -/
def adjSock (dispatchNo : QString) (productList : List Object) : Object :=
  .mk (ascii ['A', 'd', 'j', 'S', 'o', 'c', 'k']) [
    (ascii ['D', 'i', 's', 'p', 'a', 't', 'c', 'h', 'N', 'o'], .asQStr dispatchNo),
    (ascii ['D', 'i', 's', 'p', 'a', 't', 'c', 'h', 'P', 'r', 'i', 'o', 'r'], .asQStr []),
    (ascii ['p', 'r', 'o', 'd', 'u', 'c', 't', 'L', 'i', 's', 't'],
      .asQList .itemProduct productList)]

def twoProducts : Object :=
  adjSock (ascii ['A', '7']) [newObject 0 .itemProduct, newObject 0 .itemProduct]

/-- Two products are read into an object that has another one. -/
theorem xmlToPropertyBase_toXML_adjSock :
    (TextOf.saved twoProducts.toXML).Keeps twoProducts.toXML ∧
      twoProducts.WellFormed (newObject 0) ∧
      SameClass (adjSock [] [newObject 7 .itemProduct]) twoProducts ∧
      xmlToPropertyBase (TextOf.saved twoProducts.toXML) (newObject 0)
        ((TextOf.saved twoProducts.toXML).toString twoProducts.toXML)
        (adjSock [] [newObject 7 .itemProduct]) = (true, twoProducts) := by
  have hq := TextOf.saved_keeps twoProducts.toXML
  have hw : twoProducts.WellFormed (newObject 0) := by
    have hnew := newObject_wellFormed 0 .itemProduct
    simp only [twoProducts, adjSock, Object.WellFormed, PropertysWellFormed, Value.WellFormed,
      ListWellFormed, SameClass, hnew, and_true]
    decide
  have hs : SameClass (adjSock [] [newObject 7 .itemProduct]) twoProducts := rfl
  exact ⟨hq, hw, hs, xmlToPropertyBase_toXML _ _ _ _ hq hw hs⟩

end ProgrammingPath.Mes
