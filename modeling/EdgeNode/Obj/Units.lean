import EdgeNode.Config.Created
import EdgeNode.Obj.SensorTables
import EdgeNode.Obj.World

/-! The creation of a sensor unit with its interface objects by the FutureTek, SOHA, DOTECH and TASCON
drivers: the slots of the configuration, the objects, and what is left when something fails. -/

namespace EdgeNode.Obj

open Config

def retInvalidModel : Ret := 0x88
def retInvalidArgument : Ret := 0x8A

section Identifiers

def isDigit (c : UInt8) : Bool := 48 ≤ c && c ≤ 57

/-- `FTE_strToUINT32` from the value so far, on the characters before the end of the string. -/
def strToUint32 (ulValue : UInt32) : List UInt8 → Option UInt32
  | [] => some ulValue
  | c :: pString =>
    if isDigit c then strToUint32 (ulValue * 10 + (c - 48).toUInt32) pString else none

/-- The number that a slave ID stands for. -/
def slaveID (pSlaveID : List UInt8) : Nat := pSlaveID.foldl (fun n c => n * 10 + (c - 48).toNat) 0

/-- The identifier of a TASCON unit as it lies in the words of a configuration, lowest byte first. -/
def sensorWords (pSensorID : Fin 6 → UInt8) : List UInt32 :=
  [UInt32.ofNat ((pSensorID 0).toNat + 256 * ((pSensorID 1).toNat + 256 * ((pSensorID 2).toNat +
      256 * (pSensorID 3).toNat))),
    UInt32.ofNat ((pSensorID 4).toNat + 256 * (pSensorID 5).toNat)]

end Identifiers

section Configurations

/-! `FTE_GUS_CONFIG` and `FTE_TASCON_HEM12_CONFIG` have the model, the channel and the interval in the
first reserved words, and the identifier behind them. What lies behind a default configuration and is
copied with it is nobody's, and zero here. -/

def devUcs1 : UInt32 := 0x00040101

def asciiName (s : String) : List UInt8 := s.toList.map fun c => UInt8.ofNat c.toNat

def unitConfig (nType : UInt32) (pName : String) (ulChild : UInt32) (nModel nInterval : UInt32)
    (xID : List UInt32) : ObjectConfig :=
  ⟨nType, asciiName pName, 0, ulChild, 0, nModel :: devUcs1 :: nInterval :: xID⟩

def ifceConfig (nType : UInt32) (pName : String) (nDevID nRegID nInterval : UInt32) : ObjectConfig :=
  ⟨nType, asciiName pName, 0, 0, 0, [nDevID, nRegID, nInterval, 0, 0, 0]⟩

def nSensorID (xReserved : List UInt32) : UInt32 := xReserved.getD 3 0

def pSensorID (xReserved : List UInt32) (i : Fin 6) : UInt8 :=
  UInt8.ofNat ((xReserved.getD (3 + i.val / 4) 0).toNat / 256 ^ (i.val % 4))

end Configurations

inductive UnitDriver where
  | futuretek
  | soha
  | dotech
  | tascon
  deriving DecidableEq

def tasconMax : Nat := 3

namespace UnitDriver

variable {ο : Type} [DecidableEq ο]

def deviceMax : UnitDriver → Nat
  | futuretek => futuretekDeviceMax
  | soha => sohaDeviceMax
  | dotech => dotechFx3dMax
  | tascon => tasconMax

/-- `FTE_TASCON_HEM12_attach` does not look at what the init returns either. -/
def attach (pObj : ο) (pUCS : Option Ret) :
    (d : UnitDriver) → SensorTable d.deviceMax ο → Ret × SensorTable d.deviceMax ο
  | futuretek, t => futuretekAttach t pObj pUCS
  | soha, t => sohaAttach t pObj pUCS
  | dotech, t => dotechFx3dAttach t pObj pUCS
  | tascon, t => t.attach pObj pUCS

end UnitDriver

/-- The configuration, the objects, the tables of the drivers, and the configurations of the objects
in memory. -/
structure Units (ο ε : Type) where
  ram : Ram
  world : World ο ε
  pDevices : (d : UnitDriver) → SensorTable d.deviceMax ο
  pConfig : ο → ObjectConfig

/-- How an `FTE_OBJ_create` goes: whether there is memory for the object, its configuration and its
status, the channel of a unit, the nodes for the unit's list and for the registry. -/
structure ObjectCalls (ο : Type) where
  pObj : ο
  alloc : Bool
  pUCS : Option Ret
  node : Bool
  insert : Bool

/-- How far it gets, where `xRet` is what the driver's attach returns. -/
def ObjectCalls.progress {ο : Type} (c : ObjectCalls ο) (xRet : Ret) : Progress :=
  if c.alloc = false ∨ xRet ≠ retOk then .aborted else if c.insert then .inserted else .attached

/-- What a driver creates: its default configuration with the identifier written into it, and those of
the children; which units have the identifier, and what is returned when there is one. -/
structure UnitBase where
  pBase : ObjectConfig
  pChild : List ObjectConfig
  ulMaxCount : Nat
  same : ObjectConfig → Bool
  duplicate : Ret

/-- What a creation returns, whether it sets `ppObj`, and what `FTE_OBJ_create` returned for the
children. -/
structure UnitResult (ο ε : Type) where
  xRet : Ret
  ppObj : Option ο
  pChild : List (Option ο)
  units : Units ο ε

namespace Units

variable {ο ε : Type} [DecidableEq ο] (product : Product) (desc : UInt32 → Option Desc) (d : UnitDriver)
  (u : Units ο ε)

def withTable (t : SensorTable d.deviceMax ο) : Units ο ε :=
  { u with pDevices := Function.update u.pDevices d t }

def withConfig (pObj : ο) (pConfig : ObjectConfig) : Units ο ε :=
  { u with pConfig := Function.update u.pConfig pObj pConfig }

/-- `FTE_OBJ_create` of a configuration. The memory that it gets is not in use. -/
def objCreate (pConfig : ObjectConfig) (c : ObjectCalls ο) : Option (Option ο × Units ο ε) :=
  if (u.world.objects c.pObj).isSome then none
  else
    let (xRet, pDevices) :=
      if desc pConfig.nID = some .gus ∧ c.alloc then d.attach c.pObj c.pUCS (u.pDevices d)
      else (retOk, u.pDevices d)
    let world := u.world.create desc c.pObj
      ⟨pConfig.nID, pConfig.xReserved.getD 0 0, c.progress xRet, c.node⟩
    let u := { u.withTable d pDevices with world }
    if (world.objects c.pObj).isSome then some (some c.pObj, u.withConfig c.pObj pConfig)
    else some (none, u)

/-- A child that is not created is reported, and the next one tried. -/
def createChildren (u : Units ο ε) : List ObjectConfig → (Nat → ObjectCalls ο) →
    Option (List (Option ο) × Units ο ε)
  | [], _ => some ([], u)
  | pChildConfig :: rest, calls =>
    match u.objCreate desc d pChildConfig (calls 0) with
    | none => none
    | some (pChild, u) =>
      (createChildren u rest fun i => calls (i + 1)).map fun r => (pChild :: r.1, r.2)

/-- Whether a unit in the driver's table has the identifier. -/
def isDuplicate (same : ObjectConfig → Bool) : Bool :=
  decide (∃ i, ((u.pDevices d).pObj i).any (fun o => same (u.pConfig o)) = true)

/-- What the creations of the drivers have in common. -/
def create (m : UnitBase) (calls : Nat → ObjectCalls ο) : Option (UnitResult ο ε) :=
  if u.isDuplicate d m.same then some ⟨m.duplicate, none, [], u⟩
  else
    let pChild := fun i => m.pChild.getD i zeroObject
    match Config.objCreate product m.pBase pChild u.ram,
      objCreated product m.pBase pChild m.ulMaxCount u.ram with
    | (xRet, ram), none => some ⟨xRet, none, [], { u with ram }⟩
    | (_, ram), some (pConfig, pChildConfig) =>
      match ({ u with ram } : Units ο ε).objCreate desc d pConfig (calls 0) with
      | none => none
      | some (none, u) => some ⟨retNotEnoughMemory, none, [], u⟩
      | some (some pObj, u) =>
        (u.createChildren desc d pChildConfig fun i => calls (i + 1)).map fun r =>
          ⟨retOk, some pObj, r.1, r.2⟩

section Slaves

variable (pSlaveID : List UInt8) (calls : Nat → ObjectCalls ο)

/-- The drivers whose units have a number: the default configuration, the configurations of the
children, and the code for a number that is there already. -/
def slaveBase (base : UInt32 → ObjectConfig) (pChild : List ObjectConfig) (ulMaxCount : Nat)
    (duplicate : Ret) (ulSlaveID : UInt32) : UnitBase :=
  ⟨base ulSlaveID, pChild, ulMaxCount, fun c => nSensorID c.xReserved == ulSlaveID, duplicate⟩

def slaveCreate (base : UInt32 → ObjectConfig) (pChild : List ObjectConfig) (ulMaxCount : Nat)
    (duplicate : Ret) : Option (UnitResult ο ε) :=
  match strToUint32 0 pSlaveID with
  | none => some ⟨retInvalidArgument, none, [], u⟩
  | some ulSlaveID =>
    u.create product desc d (slaveBase base pChild ulMaxCount duplicate ulSlaveID) calls

end Slaves

end Units

section Futuretek

def ms10Config (ulSlaveID : UInt32) : ObjectConfig :=
  unitConfig 0x7E110000 "MS10" 1 18 2000 [ulSlaveID, 0, 0]

def ms10Children : List ObjectConfig := [ifceConfig 0x02800000 "MS10-MOISTURE" 0x7E110000 0 2000]

def km21b20Config (ulSlaveID : UInt32) : ObjectConfig :=
  unitConfig 0x7E120000 "KM21B20" 1 19 2000 [ulSlaveID, 0, 0]

def km21b20Children : List ObjectConfig :=
  [ifceConfig 0x0A810000 "KM21B20-ACIDITY" 0x7E120000 0 2000]

def jcg06Config (ulSlaveID : UInt32) : ObjectConfig :=
  unitConfig 0x7E130000 "JCG06" 3 20 2000 [ulSlaveID, 0, 0]

def jcg06Children : List ObjectConfig :=
  [ifceConfig 0x0A810000 "JCG06-RF" 0x7E130000 0 2000,
    ifceConfig 0x0A810000 "JCG06-RFPH" 0x7E130000 1 2000,
    ifceConfig 0x06800000 "JCG06-RESET" 0x7E130000 2 2000]

end Futuretek

section Soha

def mv250htConfig (ulSlaveID : UInt32) : ObjectConfig :=
  unitConfig 0x7E020000 "MV250" 3 5 10000 [ulSlaveID, 0, 0]

def mv250htChildren : List ObjectConfig :=
  [ifceConfig 0x07810000 "MV250-CO2" 0x7E020000 0 10000,
    ifceConfig 0x01800000 "MV250-TEMP" 0x7E020000 1 10000,
    ifceConfig 0x02800000 "MV250-HUMI" 0x7E020000 2 10000]

end Soha

section Dotech

def fx3dConfig (ulSlaveID : UInt32) : ObjectConfig :=
  unitConfig 0x7E0D0000 "FX3D" 8 15 2000 [ulSlaveID, 0, 0]

def fx3dChildren : List ObjectConfig :=
  [ifceConfig 0x01800000 "TEMP0" 0x7E0D0000 0 2000,
    ifceConfig 0x01800000 "TSET0" 0x7E0D0000 1 2000,
    ifceConfig 0x01800000 "TSET1" 0x7E0D0000 2 2000,
    ifceConfig 0x05800000 "RELAY0" 0x7E0D0000 3 2000,
    ifceConfig 0x05800000 "RELAY1" 0x7E0D0000 4 2000,
    ifceConfig 0x05800000 "ALARM" 0x7E0D0000 5 2000,
    ifceConfig 0x7F000000 "TCTRL0" 0x7E0D0000 6 2000,
    ifceConfig 0x7F000000 "TCTRL1" 0x7E0D0000 7 2000]

end Dotech

section Tascon

def tasconModelHem12 : UInt32 := 0
def tasconModelHem12_06m : UInt32 := 1
def objTypeMultiHem12 : UInt32 := 0x7E0C0000
def objTypeMultiHem12_06m : UInt32 := 0x7E080000

def hem12Config (id : Fin 6 → UInt8) : ObjectConfig :=
  unitConfig objTypeMultiHem12 "HEM12" 1 3 10000 (sensorWords id ++ [0])

def hem12Children : List ObjectConfig :=
  [ifceConfig 0x08800000 "POWER(kWh)" objTypeMultiHem12 0 10000]

def hem12_06mConfig (id : Fin 6 → UInt8) : ObjectConfig :=
  unitConfig objTypeMultiHem12_06m "AGU-HA" 3 10 10000 (sensorWords id ++ [0])

def hem12_06mChildren : List ObjectConfig :=
  [ifceConfig 0x08800000 "POWER(kWh)" objTypeMultiHem12_06m 0 10000,
    ifceConfig 0x03800000 "VOLTAGE(V)" objTypeMultiHem12_06m 2 10000,
    ifceConfig 0x04800000 "CURRENT(A)" objTypeMultiHem12_06m 3 10000]

/-- The base configuration of a model, and its children. -/
def tasconModel (xType : UInt32) (id : Fin 6 → UInt8) : Option (ObjectConfig × List ObjectConfig) :=
  if xType = tasconModelHem12 then some (hem12Config id, hem12Children)
  else if xType = tasconModelHem12_06m then some (hem12_06mConfig id, hem12_06mChildren)
  else none

end Tascon

namespace Units

variable {ο ε : Type} [DecidableEq ο] (product : Product) (desc : UInt32 → Option Desc) (u : Units ο ε)
  (calls : Nat → ObjectCalls ο)

section Slaves

variable (pSlaveID : List UInt8)

def futuretekMs10Create : Option (UnitResult ο ε) :=
  u.slaveCreate product desc .futuretek pSlaveID calls ms10Config ms10Children 1 retOk

def futuretekKm21b20Create : Option (UnitResult ο ε) :=
  u.slaveCreate product desc .futuretek pSlaveID calls km21b20Config km21b20Children 1 retOk

def futuretekJcg06Create : Option (UnitResult ο ε) :=
  u.slaveCreate product desc .futuretek pSlaveID calls jcg06Config jcg06Children 3 retInvalidId

def sohaMv250htCreate : Option (UnitResult ο ε) :=
  u.slaveCreate product desc .soha pSlaveID calls mv250htConfig mv250htChildren 3 retOk

def dotechFx3dCreate : Option (UnitResult ο ε) :=
  u.slaveCreate product desc .dotech pSlaveID calls fx3dConfig fx3dChildren 8 retOk

end Slaves

section Tascon

-- `FTE_RET_DUPLICATE` is the system's `MQX_COMPONENT_EXISTS`
variable (retDuplicate : Ret) (id : Fin 6 → UInt8)

def tasconBase (pBase : ObjectConfig) (pChild : List ObjectConfig) : UnitBase :=
  ⟨pBase, pChild, 3, fun c => decide (pSensorID c.xReserved = id), retDuplicate⟩

/-- The test for a unit with the identifier comes before that of the model. -/
def tasconCreate (xType : UInt32) : Option (UnitResult ο ε) :=
  match tasconModel xType id with
  | some (pBase, pChild) =>
    u.create product desc .tascon (tasconBase retDuplicate id pBase pChild) calls
  | none =>
    let same := fun c : ObjectConfig => decide (pSensorID c.xReserved = id)
    some ⟨if u.isDuplicate .tascon same then retDuplicate else retInvalidModel, none, [], u⟩

/-- The types of the objects are no models. -/
def tasconHem12Create : Option (UnitResult ο ε) :=
  u.tasconCreate product desc calls retDuplicate id objTypeMultiHem12

def tasconHem12_06mCreate : Option (UnitResult ο ε) :=
  u.tasconCreate product desc calls retDuplicate id objTypeMultiHem12_06m

end Tascon

end Units

end EdgeNode.Obj
