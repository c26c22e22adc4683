import ProgrammingPath.Hmi.DispatchOrder
import ProgrammingPath.Lib.CString

/-!
# The scan configuration of the HMI (`hal/servicedicycle.cpp`)

`saveConfigInfo` writes the text of an object over the beginning of the file and leaves what the file had behind it.
`loadConfigInfo` gives the whole file to the parser. The parser of Qt 4, under `tools`, does not look at what follows an
object, the one of Qt 5 refuses the text when that is not blank; so with Qt 5 a configuration is lost when it is shorter than
the file was (`reads_saved_iff`).
-/

namespace ProgrammingPath.Hmi.ServiceDICycle

open ProgrammingPath.Lib

/-! ## The program -/

/-- `lineA[4]` and its like. -/
structure Line where
  startPort : Int := 0
  startValue : Int := 0
  endPort : Int := 0
  endValue : Int := 0
  deriving DecidableEq, Repr

structure Service where
  scanModule : String := ""
  lineA : Line := {}
  lineB : Line := {}
  lineC : Line := {}
  deriving DecidableEq, Repr

/-- `QJsonObject::contains`. -/
def contains (json : JsonObject) (key : String) : Bool := json.any fun field => field.1 == key

/-- The four numbers of a line of a module. -/
def readPorts (scanConfigJson : JsonObject) (name : String) : Line :=
  let line := (scanConfigJson.value name).toObject
  let startPort := (line.value "StartPort").toObject
  let endPort := (line.value "EndPort").toObject
  { startPort := (startPort.value "GPIO").toInt
    startValue := (startPort.value "value").toInt
    endPort := (endPort.value "GPIO").toInt
    endValue := (endPort.value "value").toInt }

/-- What `toJson` with the stream makes of an object, and `fromJson` of the bytes of a file; `none` is a document that is
null. -/
structure JsonText where
  toJson : JsonObject → List UInt8
  fromJson : List UInt8 → Option JsonObject

/-- `hmi-config.ServiceDICycle.json`, `none` when it does not exist, and `self`. -/
structure State where
  file : Option (List UInt8)
  self : Option Service

/-- `jsonConfig`. -/
def jsonConfig (qt : JsonText) (bytes : List UInt8) : JsonObject := (qt.fromJson bytes).getD []

/-- `loadConfigInfo` with a file that is there. -/
def Service.load (svc : Service) (json : JsonObject) : Service :=
  let scanModule := ((json.value "Default").toQString).getD ""
  if contains json scanModule then
    let scanConfigJson := (json.value scanModule).toObject
    { scanModule := scanModule
      lineA := readPorts scanConfigJson "LineA"
      lineB := readPorts scanConfigJson "LineB"
      lineC := readPorts scanConfigJson "LineC" }
  else { svc with scanModule := scanModule }

/-- `loadConfigInfo`: the object, and the file, which is created if it does not exist. -/
def loadConfigInfo (qt : JsonText) (file : Option (List UInt8)) (svc : Service) : Service × Option (List UInt8) :=
  match file with
  | none => (svc, some [])
  | some bytes => (svc.load (jsonConfig qt bytes), some bytes)

/-- A file that is opened for reading and writing, and written from its beginning. -/
def writeOver (file : Option (List UInt8)) (text : List UInt8) : List UInt8 :=
  text ++ (file.getD []).drop text.length

/-- `saveConfigInfo`, with a file that can be opened. -/
def saveConfigInfo (qt : JsonText) (s : State) (json : JsonObject) : State :=
  let file := some (writeOver s.file (qt.toJson json))
  match s.self with
  | none => ⟨file, none⟩
  | some svc => ⟨(loadConfigInfo qt file svc).2, some (loadConfigInfo qt file svc).1⟩

/-- One call after the other. -/
def saveAll (qt : JsonText) (s : State) (saves : List JsonObject) : State := saves.foldl (saveConfigInfo qt) s

/-! ## What is saved and what is read -/

/-- The library: Qt 4 with the parser under `tools`, or Qt 5. -/
inductive Version
  | qt4
  | qt5
  deriving DecidableEq, Repr

/-- What may stand behind an object. -/
def Version.accepts : Version → List UInt8 → Bool
  | .qt4, _ => true
  | .qt5, rest => rest.all fun b => b == 32 || b == 9 || b == 10 || b == 13

/-- The configuration that is read is this object, and the lines are those of the module that it names. -/
structure Reads (qt : JsonText) (file : Option (List UInt8)) (json : JsonObject) : Prop where
  object : ∀ bytes ∈ file, jsonConfig qt bytes = json
  lines : ∀ (svc : Service) (name : String), json.value "Default" = .str name → contains json name →
    (loadConfigInfo qt file svc).1 =
      { scanModule := name
        lineA := readPorts (json.value name).toObject "LineA"
        lineB := readPorts (json.value name).toObject "LineB"
        lineC := readPorts (json.value name).toObject "LineC" }

variable {qt : JsonText} {s : State} {json : JsonObject} {v : Version}

theorem file_saveConfigInfo : (saveConfigInfo qt s json).file = some (writeOver s.file (qt.toJson json)) := by
  rw [saveConfigInfo]
  cases s.self with
  | none => rfl
  | some svc => rfl

/-- An object that is read gives its lines. -/
theorem load_of_default {svc : Service} {name : String} (hname : json.value "Default" = .str name)
    (hmodule : contains json name) :
    svc.load json =
      { scanModule := name
        lineA := readPorts (json.value name).toObject "LineA"
        lineB := readPorts (json.value name).toObject "LineB"
        lineC := readPorts (json.value name).toObject "LineC" } := by
  rw [Service.load, hname]
  exact if_pos hmodule

/-- What a file is read as that begins with the text of an object. -/
theorem reads_append_iff {rest : List UInt8}
    (hparse : qt.fromJson (qt.toJson json ++ rest) = if v.accepts rest then some json else none) :
    Reads qt (some (qt.toJson json ++ rest)) json ↔ v.accepts rest ∨ json = [] := by
  have hconfig : jsonConfig qt (qt.toJson json ++ rest) = if v.accepts rest then json else [] := by
    rw [jsonConfig, hparse]
    split <;> rfl
  constructor
  · intro h
    have hobject := h.object _ rfl
    rw [hconfig] at hobject
    split at hobject
    · next haccepts => exact .inl haccepts
    · exact .inr hobject.symm
  · intro h
    have hjson : jsonConfig qt (qt.toJson json ++ rest) = json := by
      rw [hconfig]
      obtain haccepts | rfl := h
      · exact if_pos haccepts
      · exact ite_self _
    refine ⟨fun bytes hbytes => ?_, fun svc name hname hmodule => ?_⟩
    · cases hbytes
      exact hjson
    · show svc.load (jsonConfig qt _) = _
      rw [hjson]
      exact load_of_default hname hmodule

/-- After any calls the last object is read if what its text left of the file is accepted behind it, and only then (an empty
object is what a refused text is read as). -/
theorem reads_saved_iff (qt : JsonText) (v : Version) (s : State) (saves : List JsonObject) (json : JsonObject)
    (hparse : ∀ rest, qt.fromJson (qt.toJson json ++ rest) = if v.accepts rest then some json else none) :
    Reads qt (saveAll qt s (saves ++ [json])).file json ↔
      v.accepts (((saveAll qt s saves).file.getD []).drop (qt.toJson json).length) ∨ json = [] := by
  rw [saveAll, List.foldl_concat, file_saveConfigInfo, writeOver]
  exact reads_append_iff (hparse _)

/-! ## A configuration that is shorter than the one before -/

def kang : JsonObject := [("Default", .str "ScanConfig-Kang"), ("ScanConfig-Kang", .obj [])]

def kangText : List UInt8 :=
  text "\x7b\n    \"Default\": \"ScanConfig-Kang\",\n    \"ScanConfig-Kang\": \x7b\n    \x7d\n\x7d\n"

def gpioText : List UInt8 :=
  text "\x7b\n    \"Default\": \"ScanConfig-GPIO\",\n    \"ScanConfig-GPIO\": \x7b\n        \"GPIOMax\": 3,\n        \"GPIOMin\": 0\n    \x7d\n\x7d\n"

/-- Qt 5 with this object and its text. -/
def kangQt : JsonText where
  toJson _ := kangText
  fromJson bytes :=
    if kangText <+: bytes ∧ Version.qt5.accepts (bytes.drop kangText.length) then some kang else none

theorem fromJson_kangQt (rest : List UInt8) :
    kangQt.fromJson (kangQt.toJson kang ++ rest) = if Version.qt5.accepts rest then some kang else none := by
  have hdrop : (kangQt.toJson kang ++ rest).drop kangText.length = rest := List.drop_left
  have hfront : kangText <+: kangQt.toJson kang ++ rest := List.prefix_append _ _
  by_cases haccepts : Version.qt5.accepts rest
  · rw [if_pos haccepts]
    exact if_pos ⟨hfront, hdrop.symm ▸ haccepts⟩
  · rw [if_neg haccepts]
    exact if_neg fun h => haccepts (hdrop ▸ h.2)

theorem reads_saved_kang :
    (∀ rest, kangQt.fromJson (kangQt.toJson kang ++ rest) = if Version.qt5.accepts rest then some kang else none) ∧
      (Reads kangQt (saveAll kangQt ⟨none, some {}⟩ ([kang] ++ [kang])).file kang ↔
        Version.qt5.accepts
          (((saveAll kangQt ⟨none, some {}⟩ [kang]).file.getD []).drop (kangQt.toJson kang).length) ∨ kang = []) :=
  ⟨fromJson_kangQt, reads_saved_iff kangQt .qt5 ⟨none, some {}⟩ [kang] kang fromJson_kangQt⟩

/-- With Qt 5 the end of the longer text is behind the shorter one, and nothing is read. -/
theorem not_reads_kang :
    kangQt.fromJson (kangQt.toJson kang) = some kang ∧
      ¬Reads kangQt (saveAll kangQt ⟨some gpioText, some {}⟩ [kang]).file kang := by
  constructor
  · rw [← List.append_nil (kangQt.toJson kang), fromJson_kangQt]
    rfl
  · intro h
    rw [saveAll, List.foldl_cons, List.foldl_nil, file_saveConfigInfo, writeOver,
      reads_append_iff (fromJson_kangQt _)] at h
    obtain haccepts | hnil := h
    · exact absurd haccepts (by decide +kernel)
    · exact List.cons_ne_nil _ _ hnil

end ProgrammingPath.Hmi.ServiceDICycle
