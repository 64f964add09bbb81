import EdgeNode.Types
import Mathlib.Logic.Function.Basic
import Mathlib.Tactic.Common

/-! The four configuration pools, their pages in flash and the product they are configured for. -/

namespace EdgeNode.Config

def poolVersion : UInt32 := 0x20150708
def maxInt32 : Nat := 0x7FFFFFFF
def retInvalidSize : Ret := 0x02

/-- The pools in the order in which `FTE_CFG_save` takes them. -/
inductive Kind where
  | main
  | object
  | event
  | ext
deriving DecidableEq

def kinds : List Kind := [.main, .object, .event, .ext]

structure SysConfig where
  bSystemMonitor : Bool
  ulAllowFailureCount : UInt32
  ulKeepAliveTime : UInt32
  ulAutoSaveInterval : UInt32
deriving DecidableEq

structure ShellConfig where
  pUserID : List UInt8
  pPasswd : List UInt8
  ulTimeout : UInt32
deriving DecidableEq

structure TrapConfig where
  ulCount : UInt32
  pList : List UInt32
  pCommunity : List UInt8
deriving DecidableEq

/-- `FTE_NET_CFG`; the services that no setter looks into are bytes. -/
structure NetConfig where
  nType : UInt32
  ip : UInt32
  mask : UInt32
  gateway : UInt32
  xTrap : TrapConfig
  services : List UInt8
deriving DecidableEq

structure MainPool where
  pModel : List UInt8
  pLocation : List UInt8
  xSystem : SysConfig
  xShell : ShellConfig
  xNetwork : NetConfig
deriving DecidableEq

/-- `FTE_OBJECT_CONFIG`; the name is the string that the array holds, and the first reserved word is
the `nDevID` of an interface. -/
structure ObjectConfig where
  nID : UInt32
  pName : List UInt8
  xFlags : UInt32
  ulChild : UInt32
  pChild : UInt32
  xReserved : List UInt32
deriving DecidableEq

structure ObjectPool where
  uiObjectCount : UInt32
  pObjects : List ObjectConfig
deriving DecidableEq

structure EventConfig where
  ulEPID : UInt32
  params : List UInt8
deriving DecidableEq

structure EventPool where
  uiEventCount : UInt32
  pEvents : List EventConfig
deriving DecidableEq

/-- The sections that a product may have in its ext pool. -/
inductive ExtSection where
  | cu
  | ioex
  | dotech
  | dioNode
deriving DecidableEq

abbrev ExtPool := ExtSection → List UInt8

abbrev Body : Kind → Type
  | .main => MainPool
  | .object => ObjectPool
  | .event => EventPool
  | .ext => ExtPool

/-- A pool as it stands in RAM and in a bank. `nID` is a signed word, here as its bits. -/
@[ext] structure Page (β : Type) where
  ulCRC : UInt32
  ulTag : UInt32
  nID : UInt32
  body : β

/-- What the build and `FTE_CFG_DESC` of a product fix. -/
structure Product where
  pModel : List UInt8
  modelLength : Nat
  locationMaxLen : Nat
  objMaxCount : Nat
  eventMaxCount : Nat
  trapCount : Nat
  keepAliveTimeMax : UInt32
  extLen : ExtSection → Nat
  initDefaultExtConfig : ExtSection → List UInt8 → List UInt8
  pSystem : SysConfig
  pShell : ShellConfig
  pNetwork : NetConfig
  pObjects : List (ObjectConfig × (Nat → ObjectConfig))
  pEvents : List EventConfig

def zeroObject : ObjectConfig := ⟨0, [], 0, 0, 0, List.replicate 6 0⟩
def zeroEvent : EventConfig := ⟨0, []⟩

def zeroBody (product : Product) : ∀ k, Body k
  | .main => {
      pModel := List.replicate (product.modelLength + 1) 0
      pLocation := List.replicate (product.locationMaxLen + 1) 0
      xSystem := ⟨false, 0, 0, 0⟩
      xShell := ⟨[], [], 0⟩
      xNetwork := ⟨0, 0, 0, 0, ⟨0, List.replicate product.trapCount 0, []⟩, []⟩ }
  | .object => ⟨0, List.replicate product.objMaxCount zeroObject⟩
  | .event => ⟨0, List.replicate product.eventMaxCount zeroEvent⟩
  | .ext => fun x => List.replicate (product.extLen x) 0

def zeroPage (product : Product) (k : Kind) : Page (Body k) := ⟨0, 0, 0, zeroBody product k⟩

/-- The pools and their flags in RAM. -/
structure Ram where
  page : ∀ k, Page (Body k)
  modified : Kind → Bool

abbrev Banks := ∀ k, Bool → Page (Body k)

section Valid

-- `FTE_CRC32` over the page behind its CRC, for each of the four page layouts
variable (crc : ∀ k, UInt32 → UInt32 → Body k → UInt32)

def pageCrc {k : Kind} (p : Page (Body k)) : UInt32 := crc k p.ulTag p.nID p.body

/-- The tests of `FTE_CFG_init` on a page read from a bank. -/
def valid {k : Kind} (p : Page (Body k)) : Bool :=
  p.ulCRC == pageCrc crc p && p.ulTag == poolVersion && decide (p.nID.toNat ≤ maxInt32)

/-- One pass of the loop over the two banks of a pool. -/
def loadBank {k : Kind} (config p : Page (Body k)) : Page (Body k) :=
  if valid crc p && decide (config.nID < p.nID) then p else config

end Valid

end EdgeNode.Config
