import Mathlib.Data.List.Basic

/-!
The storage encryption of `storage/lib/storage.c`: the key ranges that a device gets from the
configuration, and the pass over them for an access.
-/

namespace DisasVisor.Storage

structure Crypto (κ : Type) where
  encrypt : κ → UInt64 → List UInt8 → List UInt8
  decrypt : κ → UInt64 → List UInt8 → List UInt8
  setkey : List UInt8 → UInt16 → κ

structure Guid where
  data1 : UInt32
  data2 : UInt16
  data3 : UInt16
  data4 : List UInt8
  deriving DecidableEq

def anyguid : Guid := { data1 := 0xFFFFFFFF, data2 := 0xFFFF, data3 := 0xFFFF, data4 := List.replicate 8 0xFF }

inductive StorageType where
  | null
  | ata
  | atapi
  | usb
  | ahci
  | ahciAtapi
  | any
  deriving DecidableEq

def storageHostIdAny : UInt8 := 0xFF

def storageDeviceIdAny : UInt16 := 0xFFFF

structure StorageKeysConf where
  guid : Guid
  type : StorageType
  hostId : UInt8
  deviceId : UInt16
  lbaLow : UInt64
  lbaHigh : UInt64
  cryptoName : String
  keyindex : UInt8
  keybits : UInt16
  extend : String

structure StorageKeys (κ : Type) where
  lbaLow : UInt64
  lbaHigh : UInt64
  crypto : Crypto κ
  keyctx : κ

/-- `struct storage_init`; `matchExtend` is `storage_match_extend`, which panics on a string that
is not well formed. -/
structure StorageInit where
  guid : Guid
  type : StorageType
  hostId : UInt8
  deviceId : UInt16
  matchExtend : String → Option Bool

def storageMaxKeysPerDevice : Nat := 8

def storageMatchGuid (guid1 guid2 : Guid) : Bool := guid2 = anyguid ∨ guid1 = guid2

def storageMatchBusid (init : StorageInit) (conf : StorageKeysConf) : Bool :=
  (conf.type = .any ∨ init.type = conf.type) ∧
    (conf.hostId = storageHostIdAny ∨ init.hostId = conf.hostId) ∧
    (conf.deviceId = storageDeviceIdAny ∨ init.deviceId = conf.deviceId)

variable {κ : Type}

/-- The loop of `storage_set_keys`; `none` is a panic, or a write beyond the array of the keys. -/
def storageSetKeysLoop (cryptoFind : String → Option (Crypto κ)) (cfgKeys : UInt8 → List UInt8)
    (init : StorageInit) : List StorageKeysConf → List (StorageKeys κ) → Option (List (StorageKeys κ))
  | [], keys => some keys
  | conf :: confs, keys =>
    if ¬storageMatchGuid init.guid conf.guid ∧ ¬storageMatchBusid init conf then
      storageSetKeysLoop cryptoFind cfgKeys init confs keys
    else
      match init.matchExtend conf.extend with
      | none => none
      | some false => storageSetKeysLoop cryptoFind cfgKeys init confs keys
      | some true =>
        match cryptoFind conf.cryptoName with
        | none => none
        | some crypto =>
          if keys.length < storageMaxKeysPerDevice then
            let key : StorageKeys κ := {
              lbaLow := conf.lbaLow
              lbaHigh := conf.lbaHigh
              crypto := crypto
              keyctx := crypto.setkey (cfgKeys conf.keyindex) conf.keybits }
            storageSetKeysLoop cryptoFind cfgKeys init confs (keys ++ [key])
          else none

def storageSetKeys (cryptoFind : String → Option (Crypto κ)) (cfgKeys : UInt8 → List UInt8)
    (init : StorageInit) (confs : List StorageKeysConf) : Option (List (StorageKeys κ)) :=
  storageSetKeysLoop cryptoFind cfgKeys init confs []

structure StorageAccess where
  lba : UInt64
  count : UInt32
  sectorSize : Int32
  write : Bool

/-- The variables of `storage_handle_sectors`: what is left of the bytes at `src`, and the bytes
that `dst` has got. -/
structure Pass where
  lba : UInt64
  count : UInt32
  src : List UInt8
  dst : List UInt8

def minInt (a b : Int32) : Int32 := if a < b then a else b

namespace Pass

def copy (p : Pass) (subCount : Int32) (size : UInt32) : Option Pass :=
  if p.src.length < size.toNat then none
  else
    some {
      lba := p.lba + subCount.toInt64.toUInt64
      count := p.count - subCount.toUInt32
      src := p.src.drop size.toNat
      dst := p.dst ++ p.src.take size.toNat }

def copyLoop (low : UInt64) (sectorSize : Int32) : Nat → Pass → Option Pass
  | 0, _ => none
  | fuel + 1, p =>
    if p.count > 0 ∧ low > p.lba then
      let subCount2 := low - p.lba
      let subCount : Int32 := if subCount2 > 65535 then 65535 else subCount2.toUInt32.toInt32
      let subCount := minInt p.count.toInt32 subCount
      match p.copy subCount (subCount * sectorSize).toUInt32 with
      | none => none
      | some p => copyLoop low sectorSize fuel p
    else some p

def cryptRun (crypt : UInt64 → List UInt8 → List UInt8) (sectorSize : Nat) : Nat → Pass → Option Pass
  | 0, p => some p
  | m + 1, p =>
    if p.src.length < sectorSize then none
    else
      cryptRun crypt sectorSize m { p with
        lba := p.lba + 1
        src := p.src.drop sectorSize
        dst := p.dst ++ crypt p.lba (p.src.take sectorSize) }

def cryptLoop (crypt : UInt64 → List UInt8 → List UInt8) (high : UInt64) (sectorSize : Int32) :
    Nat → Pass → Option Pass
  | 0, _ => none
  | fuel + 1, p =>
    if p.count > 0 ∧ high ≥ p.lba then
      let subCount2 := high - p.lba
      let subCount : Int32 := if subCount2 ≥ 65535 then 65535 else subCount2.toUInt32.toInt32 + 1
      let subCount := minInt p.count.toInt32 subCount
      match cryptRun crypt sectorSize.toInt.toNat subCount.toInt.toNat { p with
          count := p.count - subCount.toUInt32 } with
      | none => none
      | some p => cryptLoop crypt high sectorSize fuel p
    else some p

end Pass

namespace StorageKeys

def crypt (key : StorageKeys κ) (write : Bool) : UInt64 → List UInt8 → List UInt8 :=
  if write then key.crypto.encrypt key.keyctx else key.crypto.decrypt key.keyctx

end StorageKeys

def keysLoop (write : Bool) (sectorSize : Int32) (fuel : Nat) :
    List (StorageKeys κ) → Pass → Option Pass
  | [], p => some p
  | key :: keys, p =>
    if p.count = 0 then some p
    else
      match p.copyLoop key.lbaLow sectorSize fuel with
      | none => none
      | some p =>
        match p.cryptLoop (key.crypt write) key.lbaHigh sectorSize fuel with
        | none => none
        | some p => keysLoop write sectorSize fuel keys p

/-- `storage_handle_sectors`: what is in the buffer at `dst` after it. `inPlace` says that `dst` is
`src`; then nothing is copied, and what is not encrypted stays. -/
def storageHandleSectors (keys : List (StorageKeys κ)) (access : StorageAccess) (inPlace : Bool)
    (src : List UInt8) : Option (List UInt8) :=
  let p : Pass := { lba := access.lba, count := access.count, src := src, dst := [] }
  match keysLoop access.write access.sectorSize (access.count.toNat + 1) keys p with
  | none => none
  | some p =>
    let size := p.count * access.sectorSize.toUInt32
    if inPlace then some (p.dst ++ p.src)
    else if p.src.length < size.toNat then none
    else some (p.dst ++ p.src.take size.toNat)

end DisasVisor.Storage
