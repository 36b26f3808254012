import Mathlib.Data.List.Induction
import Mathlib.Data.List.Nodup

/-!
A device record written as JSON and read back. parson gives back the tree that was written, so the
writer and the reader meet in the tree. The reader reverses protocols and properties.
-/

namespace EdgeComputing.DeviceSdk

open List

inductive Json where
  | boolean (b : Bool)
  | uint (n : BitVec 64)
  | string (s : String)
  | array (items : List Json)
  | object (members : List (String × Json))

abbrev JsonObject := List (String × Json)

def setValue (name : String) (value : Json) : JsonObject → JsonObject
  | [] => [(name, value)]
  | m :: obj => if m.1 = name then (name, value) :: obj else m :: setValue name value obj

def getValue (name : String) : JsonObject → Option Json
  | [] => none
  | m :: obj => if m.1 = name then some m.2 else getValue name obj

/-- `json_value_get_object`; the readers take a null pointer for an object with no members. -/
def Json.asObject : Json → JsonObject
  | .object obj => obj
  | _ => []

def Json.asArray : Json → List Json
  | .array items => items
  | _ => []

def Json.asString : Json → Option String
  | .string s => some s
  | _ => none

def setAll {α : Type} (name : α → String) (value : α → Json) (l : List α) : JsonObject :=
  l.foldl (fun obj a => setValue (name a) (value a) obj) []

section Getters

variable (obj : JsonObject) (name : String)

def getStringValue : Option String := (getValue name obj).bind Json.asString

def getString : String := (getStringValue obj name).getD ""

def getUint : BitVec 64 :=
  match getValue name obj with
  | some (.uint n) => n
  | _ => 0

def getBoolean (dflt : Bool) : Bool :=
  match getValue name obj with
  | some (.boolean b) => b
  | _ => dflt

def getObject : JsonObject := ((getValue name obj).map Json.asObject).getD []

def getArray : List Json := ((getValue name obj).map Json.asArray).getD []

end Getters

inductive AdminState where
  | locked
  | unlocked
deriving DecidableEq

inductive OperatingState where
  | enabled
  | disabled
deriving DecidableEq

def AdminState.toText : AdminState → String
  | .locked => "LOCKED"
  | .unlocked => "UNLOCKED"

def AdminState.ofText (str : Option String) : AdminState :=
  if str = some "LOCKED" then .locked else .unlocked

def OperatingState.toText : OperatingState → String
  | .enabled => "ENABLED"
  | .disabled => "DISABLED"

def OperatingState.ofText (str : Option String) : OperatingState :=
  if str = some "DISABLED" then .disabled else .enabled

structure AutoEvent where
  resource : String
  frequency : String
  onChange : Bool
deriving DecidableEq

structure NvPair where
  name : String
  value : String
deriving DecidableEq

structure Protocol where
  name : String
  properties : List NvPair
deriving DecidableEq

structure DeviceRecord (Profile Service : Type) where
  protocols : List Protocol
  adminState : AdminState
  created : BitVec 64
  description : String
  id : String
  labels : List String
  lastConnected : BitVec 64
  lastReported : BitVec 64
  modified : BitVec 64
  name : String
  operatingState : OperatingState
  origin : BitVec 64
  autos : List AutoEvent
  service : Service
  profile : Profile

structure DeviceParts (Profile Service : Type) where
  deviceprofileRead : JsonObject → Option Profile
  deviceprofileWrite : Profile → Json
  deviceprofileWriteName : Profile → Json
  deviceserviceRead : JsonObject → Service
  deviceserviceWrite : Service → Json
  deviceserviceWriteName : Service → Json

inductive ReadFailure where
  | invalidProfile
  /-- A property whose value is not a string is copied through a null pointer. -/
  | nullPointer

def stringsToArray (s : List String) : Json := .array (s.map .string)

def nvpairsWrite (e : List NvPair) : Json := .object (setAll NvPair.name (.string ·.value) e)

def protocolsWrite (e : List Protocol) : Json :=
  .object (setAll Protocol.name (nvpairsWrite ·.properties) e)

def autoeventsWrite (e : List AutoEvent) : Json :=
  .array (e.map fun ae => .object (setValue "onChange" (.boolean ae.onChange)
    (setValue "frequency" (.string ae.frequency) (setValue "resource" (.string ae.resource) []))))

variable {Profile Service : Type} (parts : DeviceParts Profile Service)

def deviceWrite (e : DeviceRecord Profile Service) (create : Bool) : JsonObject :=
  (if create then
    ([] : JsonObject)
      |> setValue "profile" (parts.deviceprofileWriteName e.profile)
      |> setValue "service" (parts.deviceserviceWriteName e.service)
      |> setValue "lastConnected" (.uint 0)
      |> setValue "lastReported" (.uint 0)
  else
    ([] : JsonObject)
      |> setValue "adminState" (.string e.adminState.toText)
      |> setValue "operatingState" (.string e.operatingState.toText)
      |> setValue "id" (.string e.id)
      |> setValue "created" (.uint e.created)
      |> setValue "modified" (.uint e.modified)
      |> setValue "profile" (parts.deviceprofileWrite e.profile)
      |> setValue "service" (parts.deviceserviceWrite e.service)
      |> setValue "lastConnected" (.uint e.lastConnected)
      |> setValue "lastReported" (.uint e.lastReported))
    |> setValue "protocols" (protocolsWrite e.protocols)
    |> setValue "autoevents" (autoeventsWrite e.autos)
    |> setValue "adminState" (.string e.adminState.toText)
    |> setValue "name" (.string e.name)
    |> setValue "description" (.string e.description)
    |> setValue "labels" (stringsToArray e.labels)
    |> setValue "operatingState" (.string e.operatingState.toText)
    |> setValue "origin" (.uint e.origin)

def arrayToStrings (array : List Json) : List String := array.map (·.asString.getD "")

def readMembers {α β : Type} (make : String → β → α) (read : Json → Except ReadFailure β)
    (obj : JsonObject) : Except ReadFailure (List α) :=
  obj.foldlM (fun result m => do return make m.1 (← read m.2) :: result) []

def nvpairsRead : JsonObject → Except ReadFailure (List NvPair) :=
  readMembers NvPair.mk fun value =>
    match value.asString with
    | some str => .ok str
    | none => .error .nullPointer

def protocolsRead : JsonObject → Except ReadFailure (List Protocol) :=
  readMembers Protocol.mk (nvpairsRead ·.asObject)

def autoeventRead (obj : JsonObject) : AutoEvent where
  resource := getString obj "resource"
  onChange := getBoolean obj "onChange" false
  frequency := getString obj "frequency"

def deviceRead (obj : JsonObject) : Except ReadFailure (DeviceRecord Profile Service) :=
  match parts.deviceprofileRead (getObject obj "profile") with
  | none => .error .invalidProfile
  | some profile => do
    let protocols ← protocolsRead (getObject obj "protocols")
    return {
      protocols := protocols
      adminState := .ofText (getStringValue obj "adminState")
      created := getUint obj "created"
      description := getString obj "description"
      id := getString obj "id"
      labels := arrayToStrings (getArray obj "labels")
      lastConnected := getUint obj "lastConnected"
      lastReported := getUint obj "lastReported"
      modified := getUint obj "modified"
      name := getString obj "name"
      operatingState := .ofText (getStringValue obj "operatingState")
      origin := getUint obj "origin"
      autos := (getArray obj "autoEvents").foldl
        (fun autos item => autoeventRead item.asObject :: autos) []
      service := parts.deviceserviceRead (getObject obj "service")
      profile := profile }

@[simp] theorem getValue_setValue (name : String) (value : Json) (obj : JsonObject) (n : String) :
    getValue n (setValue name value obj) = if n = name then some value else getValue n obj := by
  induction obj with
  | nil => simp [setValue, getValue, eq_comm]
  | cons m obj ih =>
    unfold setValue
    by_cases hm : m.1 = name
    · by_cases h : n = name
      · simp [getValue, hm, h]
      · simp [getValue, hm, h, Ne.symm h]
    · by_cases h : m.1 = n
      · simp [getValue, h, h ▸ hm]
      · simp [getValue, hm, h, ih]

theorem setValue_of_not_mem {name : String} {value : Json} {obj : JsonObject}
    (h : name ∉ obj.map Prod.fst) : setValue name value obj = obj ++ [(name, value)] := by
  induction obj with
  | nil => rfl
  | cons m obj ih =>
    obtain ⟨hm, hobj⟩ := not_or.1 (mt mem_cons.2 h)
    rw [setValue, if_neg (Ne.symm hm), ih hobj, cons_append]

section Members

variable {α β : Type} {name : α → String} {value : α → Json} {l : List α}

theorem setAll_of_nodup (h : (l.map name).Nodup) :
    setAll name value l = l.map fun a => (name a, value a) := by
  induction l using List.reverseRecOn with
  | nil => rfl
  | append_singleton l a ih =>
    rw [map_append, nodup_append] at h
    have hset : setAll name value (l ++ [a]) = setValue (name a) (value a) (setAll name value l) :=
      foldl_append
    rw [hset, ih h.1, setValue_of_not_mem, map_append]
    · rfl
    · rw [map_map]
      exact fun hmem => h.2.2 _ hmem _ (.head _) rfl

theorem readMembers_setAll (h : (l.map name).Nodup) {make : String → β → α}
    {read : Json → Except ReadFailure β} {back : α → β}
    (hread : ∀ a ∈ l, read (value a) = .ok (back a)) :
    readMembers make read (setAll name value l) =
      .ok (l.map fun a => make (name a) (back a)).reverse := by
  rw [setAll_of_nodup h, readMembers, foldlM_map]
  have hloop : ∀ acc, l.foldlM (fun result a => do
      return make (name a) (← read (value a)) :: result) acc =
        .ok ((l.map fun a => make (name a) (back a)).reverse ++ acc) := by
    clear h
    induction l with
    | nil => exact fun _ => rfl
    | cons a l ih =>
      intro acc
      rw [foldlM_cons, hread a (.head _)]
      exact (ih (fun b hb => hread b (.tail _ hb)) _).trans (by simp)
  exact (hloop []).trans (by rw [append_nil])

end Members

def Protocol.reversed (prot : Protocol) : Protocol := ⟨prot.name, prot.properties.reverse⟩

def DistinctNames (protocols : List Protocol) : Prop :=
  (protocols.map Protocol.name).Nodup ∧ ∀ prot ∈ protocols, (prot.properties.map NvPair.name).Nodup

theorem protocolsRead_protocolsWrite {protocols : List Protocol} (h : DistinctNames protocols) :
    protocolsRead (protocolsWrite protocols).asObject =
      .ok (protocols.map Protocol.reversed).reverse := by
  refine readMembers_setAll h.1 fun prot hprot => ?_
  have hpairs : nvpairsRead (nvpairsWrite prot.properties).asObject =
      .ok (prot.properties.map fun nv => ⟨nv.name, nv.value⟩).reverse :=
    readMembers_setAll (h.2 prot hprot) fun nv _ => rfl
  rw [hpairs, map_id']

theorem deviceRead_deviceWrite {d : DeviceRecord Profile Service} (h : DistinctNames d.protocols) :
    deviceRead parts (deviceWrite parts d false) =
      match parts.deviceprofileRead (parts.deviceprofileWrite d.profile).asObject with
      | none => .error .invalidProfile
      | some profile => .ok { d with
          protocols := (d.protocols.map Protocol.reversed).reverse
          autos := []
          service := parts.deviceserviceRead (parts.deviceserviceWrite d.service).asObject
          profile := profile } := by
  have hadmin : AdminState.ofText (some d.adminState.toText) = d.adminState := by
    cases d.adminState <;> simp [AdminState.ofText, AdminState.toText]
  have hoper : OperatingState.ofText (some d.operatingState.toText) = d.operatingState := by
    cases d.operatingState <;> simp [OperatingState.ofText, OperatingState.toText]
  have hlabels : arrayToStrings (stringsToArray d.labels).asArray = d.labels := by
    simp [arrayToStrings, stringsToArray, Json.asArray, Json.asString, Function.comp_def]
  unfold deviceRead deviceWrite
  simp [getObject, getArray, getString, getStringValue, getUint, Json.asString,
    getValue, protocolsRead_protocolsWrite h, hadmin, hoper, hlabels]

def SameProtocols (a b : List Protocol) : Prop :=
  ∃ c, a.Perm c ∧ List.Forall₂ (fun p q => p.name = q.name ∧ p.properties.Perm q.properties) c b

def SameRecord (d d' : DeviceRecord Profile Service) : Prop :=
  SameProtocols d'.protocols d.protocols ∧
    { d' with protocols := d.protocols, profile := d.profile, service := d.service } = d

/-- A device record with distinct names comes back the same if and only if it has no autoevents
and the reader takes its profile back. -/
theorem device_round_trip_iff (d : DeviceRecord Profile Service) (h : DistinctNames d.protocols) :
    (∃ d', deviceRead parts (deviceWrite parts d false) = .ok d' ∧ SameRecord d d') ↔
      d.autos = [] ∧
        parts.deviceprofileRead (parts.deviceprofileWrite d.profile).asObject ≠ none := by
  rw [deviceRead_deviceWrite parts h]
  cases parts.deviceprofileRead (parts.deviceprofileWrite d.profile).asObject with
  | none => simp
  | some profile =>
    have hsame : SameProtocols (d.protocols.map Protocol.reversed).reverse d.protocols := by
      refine ⟨_, reverse_perm _, forall₂_map_left_iff.2 (forall₂_same.2 ?_)⟩
      exact fun prot _ => ⟨rfl, reverse_perm _⟩
    constructor
    · rintro ⟨d', hd', -, heq⟩
      cases hd'
      exact ⟨(congrArg DeviceRecord.autos heq).symm, nofun⟩
    · rintro ⟨hautos, -⟩
      refine ⟨_, rfl, hsame, ?_⟩
      rw [← hautos]

def namedParts : DeviceParts String Unit where
  deviceprofileRead obj := getStringValue obj "name"
  deviceprofileWrite name := .object [("name", .string name)]
  deviceprofileWriteName name := .object [("name", .string name)]
  deviceserviceRead _ := ()
  deviceserviceWrite _ := .object []
  deviceserviceWriteName _ := .object []

def thermometer (autos : List AutoEvent) : DeviceRecord String Unit where
  protocols := [⟨"modbus", [⟨"address", "10.0.0.7"⟩, ⟨"port", "502"⟩]⟩, ⟨"other", []⟩]
  adminState := .unlocked
  created := 1
  description := "cold room"
  id := "d1"
  labels := ["room", "cold"]
  lastConnected := 4
  lastReported := 5
  modified := 2
  name := "thermometer"
  operatingState := .disabled
  origin := 3
  autos := autos
  service := ()
  profile := "temperature"

theorem device_round_trip_thermometer :
    ∃ d', deviceRead namedParts (deviceWrite namedParts (thermometer []) false) = .ok d' ∧
      SameRecord (thermometer []) d' := by
  refine (device_round_trip_iff namedParts (thermometer []) ⟨?_, ?_⟩).2 ⟨rfl, ?_⟩
  · decide
  · decide
  · simp [namedParts, thermometer, getStringValue, getValue, Json.asObject, Json.asString]

/-- A reading of the temperature every ten seconds is not there afterwards. -/
theorem autoevents_lost : ∃ d',
    deviceRead namedParts
      (deviceWrite namedParts (thermometer [⟨"temperature", "10s", false⟩]) false) = .ok d' ∧
      d'.autos = [] ∧ ¬ SameRecord (thermometer [⟨"temperature", "10s", false⟩]) d' := by
  refine ⟨_, (deviceRead_deviceWrite namedParts ⟨?_, ?_⟩).trans rfl, rfl, fun hsame => ?_⟩
  · decide
  · decide
  · cases congrArg DeviceRecord.autos hsame.2

end EdgeComputing.DeviceSdk
