import Mathlib.Data.List.Range
import DisasVisor.Lib.Indices

/-!
The list of the PCI devices of `drivers/pci_core.c` and `drivers/pci_init.c`: how the ports and the
memory-mapped configuration space look a function up, make new devices and renumber the buses of a bridge.
-/

namespace DisasVisor.Pci

structure ConfigAddress where
  type : BitVec 2
  regNo : BitVec 6
  funcNo : BitVec 3
  deviceNo : BitVec 5
  busNo : UInt8
  reserved : BitVec 7
  allow : Bool
  deriving DecidableEq

abbrev Bdf := UInt8 × BitVec 5 × BitVec 3

def ConfigAddress.bdf (a : ConfigAddress) : Bdf := (a.busNo, a.deviceNo, a.funcNo)

abbrev ConfigSpace := Fin 16 → UInt32

abbrev Hardware := Bdf → ConfigSpace

def vendorId (cs : ConfigSpace) : UInt16 := (cs 0).toUInt16

def classCode (cs : ConfigSpace) : UInt32 := cs 2 >>> 8

def multiFunction (cs : ConfigSpace) : Bool := cs 3 >>> 23 &&& 1 ≠ 0

structure Bridge where
  yes : Bool
  secondaryBusNo : UInt8
  subordinateBusNo : UInt8

/-- `struct pci_device`; another device is its place in `pci_device_list`, which only grows. -/
structure Device where
  address : ConfigAddress
  driver : Bool
  configSpace : ConfigSpace
  bridge : Bridge
  parentBridge : Option ℕ
  disconnect : Bool

def Device.bdf (d : Device) : Bdf := d.address.bdf

/-- `pci_device_list`, `bridge_from_bus_no`, `current_config_addr` and the devices that `new` of a driver
was called with. -/
structure State where
  devices : List Device
  bridgeFromBusNo : UInt8 → Option ℕ
  currentConfigAddr : ConfigAddress
  registered : List ℕ

def State.set (s : State) (i : ℕ) (d : Device) : State := { s with devices := s.devices.set i d }

def pciMakeConfigAddress (bus : UInt8) (dev : BitVec 5) (fn : BitVec 3) (reg : BitVec 6) : ConfigAddress where
  type := 0
  regNo := reg
  funcNo := fn
  deviceNo := dev
  busNo := bus
  reserved := 0
  allow := true

def pciSaveBridgeInfo (cs : ConfigSpace) (old : Bridge) : Bridge :=
  if classCode cs &&& 0xFFFF00 = 0x060400 then
    { yes := true
      secondaryBusNo := (cs 6 >>> 8).toUInt8
      subordinateBusNo := (cs 6 >>> 16).toUInt8 }
  else { old with yes := false }

def pciNewDevice (hw : Hardware) (addr : ConfigAddress) : Device where
  address := addr
  driver := false
  configSpace := hw addr.bdf
  bridge := pciSaveBridgeInfo (hw addr.bdf) { yes := false, secondaryBusNo := 0, subordinateBusNo := 0 }
  parentBridge := none
  disconnect := false

def pciGetBridgeFromBusNo (s : State) (busNo : UInt8) : Option ℕ :=
  if busNo = 0 then none
  else do
    let b ← s.bridgeFromBusNo busNo
    let d ← s.devices[b]?
    if d.bridge.yes ∧ d.bridge.secondaryBusNo = busNo then some b else none

def pciSetBridgeFromBusNo (s : State) (busNo : UInt8) (b : ℕ) : State :=
  if busNo = 0 then s
  else { s with bridgeFromBusNo := Function.update s.bridgeFromBusNo busNo (some b) }

def pciPossibleNewDevice (s : State) (hw : Hardware) (addr : ConfigAddress) : Option State :=
  if vendorId (hw addr.bdf) = 0xFFFF then none
  else
    some { s with devices := s.devices ++ [{ pciNewDevice hw addr with
      parentBridge := pciGetBridgeFromBusNo s addr.busNo }] }

inductive Reconnect
  | absent
  | same (d : Device)
  | changed (d : Device)

def pciReconnectDevice (hw : Hardware) (d : Device) : Option Reconnect :=
  let cs := hw d.bdf
  if vendorId cs = 0xFFFF then some .absent
  else if d.configSpace 0 = cs 0 ∧ d.configSpace 2 = cs 2 then some (.same { d with disconnect := false })
  else if d.driver then none
  else some (.changed { d with
    disconnect := false, configSpace := cs, bridge := pciSaveBridgeInfo cs d.bridge })

/-- `device_disconnect`; `fuel` bounds how deep bridges are below each other. -/
def deviceDisconnect : ℕ → ℕ → List Device → Option (List Device)
  | 0, _, _ => none
  | fuel + 1, i, devices =>
    match devices[i]? with
    | none => none
    | some d =>
      let devices := devices.set i { d with disconnect := true }
      if d.bridge.yes then
        (List.range devices.length).foldlM (fun devices j =>
          match devices[j]? with
          | none => none
          | some e => if e.parentBridge = some i then deviceDisconnect fuel j devices else some devices)
          devices
      else some devices

structure BusNumbers where
  oldSecondary : UInt8
  oldSubordinate : UInt8
  newSecondary : UInt8
  newSubordinate : UInt8

def renumber (bridge : ℕ) (n : BusNumbers) (devices : List Device) (j : ℕ) : Option (List Device) :=
  match devices[j]? with
  | none => none
  | some d =>
    if d.parentBridge = some bridge ∧ n.newSecondary ≠ n.oldSecondary then
      if ¬ d.disconnect ∧ d.address.busNo ≠ n.oldSecondary then none
      else do
        let devices ← deviceDisconnect (devices.length + 1) j devices
        let d ← devices[j]?
        some (devices.set j { d with address := { d.address with busNo := n.newSecondary } })
    else if ¬ d.disconnect ∧ n.oldSecondary ≠ 0 ∧ n.oldSecondary < d.address.busNo ∧
        d.address.busNo ≤ n.oldSubordinate ∧
        ¬ (n.newSecondary = n.oldSecondary ∧ n.newSecondary < d.address.busNo ∧
          d.address.busNo ≤ n.newSubordinate) then
      deviceDisconnect (devices.length + 1) j devices
    else some devices

def written (register offset iosize : ℕ) (data : ℕ → UInt8) (old : UInt8) : UInt8 :=
  if offset ≤ register ∧ register < offset + iosize then data (register - offset) else old

def pciHandleBridgeConfigWrite (s : State) (bridge iosize offset : ℕ) (data : ℕ → UInt8) : Option State := do
  let b ← s.devices[bridge]?
  let n : BusNumbers := {
    oldSecondary := b.bridge.secondaryBusNo
    oldSubordinate := b.bridge.subordinateBusNo
    newSecondary := written 0x19 offset iosize data b.bridge.secondaryBusNo
    newSubordinate := written 0x1A offset iosize data b.bridge.subordinateBusNo }
  if n.newSecondary = n.oldSecondary ∧ n.newSubordinate = n.oldSubordinate then some s
  else do
    let devices ← (List.range s.devices.length).foldlM (renumber bridge n) s.devices
    let b ← devices[bridge]?
    let s := pciSetBridgeFromBusNo { s with devices := devices } n.newSecondary bridge
    some (s.set bridge { b with bridge := { b.bridge with
      secondaryBusNo := n.newSecondary, subordinateBusNo := n.newSubordinate } })

inductive Found
  | device (i : ℕ)
  | concealed
  | missing
  deriving DecidableEq

/-- The loop over `pci_device_list`: the device that is meant, or a single-function device that conceals
the functions 1 to 7. -/
def search (meant conceals : Device → Bool) : List Device → ℕ → Found
  | [], _ => .missing
  | d :: devices, i =>
    if meant d then .device i
    else if conceals d then .concealed
    else search meant conceals devices (i + 1)

def searchPort (devices : List Device) (caddr : ConfigAddress) : Found :=
  search (fun d => d.address = caddr)
    (fun d => caddr.funcNo ≠ 0 ∧ d.address = { caddr with funcNo := 0 } ∧ ¬ multiFunction d.configSpace)
    devices 0

def searchMmio (devices : List Device) (bdf : Bdf) : Found :=
  search (fun d => d.bdf = bdf)
    (fun d => bdf.2.2 ≠ 0 ∧ d.bdf = (bdf.1, bdf.2.1, 0) ∧ ¬ multiFunction d.configSpace) devices 0

def newDevAddr (bdf : Bdf) : ConfigAddress where
  type := 0
  regNo := 0
  funcNo := bdf.2.2
  deviceNo := bdf.2.1
  busNo := bdf.1
  reserved := 0
  allow := false

/-- The device that an access comes to, with the state then: `fresh` says that it is a new one. -/
structure Target where
  state : State
  index : ℕ
  fresh : Bool

section Accesses

-- `pci_find_driver_for_device`
variable (findDriver : Device → Bool)

/-- The device of an access, made or connected again where that has to be; `none` is a panic, and no
target is no device. -/
def target (found : Found) (addr : ConfigAddress) (hw : Hardware) (s : State) : Option (Option Target) :=
  match found with
  | .concealed => some none
  | .missing =>
    match pciPossibleNewDevice s hw addr with
    | none => some none
    | some s' => some (some { state := s', index := s.devices.length, fresh := true })
  | .device i => do
      let d ← s.devices[i]?
      if d.disconnect then
        match ← pciReconnectDevice hw d with
        | .absent => some none
        | .same d => some (some { state := s.set i d, index := i, fresh := false })
        | .changed d => some (some { state := s.set i d, index := i, fresh := true })
      else some (some { state := s, index := i, fresh := false })

def register (t : Target) : Option (State × Bool) :=
  if t.fresh then do
    let d ← t.state.devices[t.index]?
    if findDriver d then
      some ({ t.state.set t.index { d with driver := true } with
        registered := t.state.registered ++ [t.index] }, true)
    else some (t.state, false)
  else some (t.state, true)

def writeBridge (s : State) (i : ℕ) (wr : Bool) (iosize offset : ℕ) (data : ℕ → UInt8) : Option State := do
  let d ← s.devices[i]?
  if d.bridge.yes ∧ wr then pciHandleBridgeConfigWrite s i iosize offset data else some s

/-- The register that `pci_handle_default_config_write` saves, if the access comes to it. -/
def saveRegister (s : State) (i offset : ℕ) (saved : Option UInt32) : Option State := do
  let d ← s.devices[i]?
  match saved with
  | none => some s
  | some reg => some (s.set i { d with configSpace := fun k => if (k : ℕ) = offset / 4 then reg else d.configSpace k })

/-- What follows the search in `pci_config_data_handler`: also a new device without a driver comes to the
default write. -/
def pciConfigDataHandler (s : State) (wr : Bool) (iosize : ℕ) (port : Fin 4) (data : ℕ → UInt8) (hw : Hardware)
    (saved : Option UInt32) : Option State :=
  if ¬ s.currentConfigAddr.allow then some s
  else do
    let offset := s.currentConfigAddr.regNo.toNat * 4 + port
    let caddr : ConfigAddress := { s.currentConfigAddr with reserved := 0, regNo := 0, type := 0 }
    match ← target (searchPort s.devices caddr) caddr hw s with
    | none => some s
    | some t => do
        let (s, goes) ← register findDriver t
        let s ← if goes then writeBridge s t.index wr iosize offset data else some s
        saveRegister s t.index offset (if wr then saved else none)

def pciConfigMmioHandler (s : State) (bdf : Bdf) (regOffset : ℕ) (wr : Bool) (len : ℕ) (data : ℕ → UInt8)
    (hw : Hardware) (saved : Option UInt32) : Option State := do
  match ← target (searchMmio s.devices bdf) (newDevAddr bdf) hw s with
  | none => some s
  | some t => do
      let (s, goes) ← register findDriver t
      if goes then do
        let s ← writeBridge s t.index wr len regOffset data
        saveRegister s t.index regOffset (if wr then saved else none)
      else some s

/-- What the guest does: a write to port 0xCF8, an access to the ports from 0xCFC on, and one to the
memory-mapped configuration space. `hw` is what the functions answer then, and `saved` is what the default
write saves, if the driver leaves the access to it. -/
inductive Event
  | addr (value : ConfigAddress)
  | data (wr : Bool) (iosize : ℕ) (port : Fin 4) (data : ℕ → UInt8) (hw : Hardware) (saved : Option UInt32)
  | mmio (bdf : Bdf) (regOffset : ℕ) (wr : Bool) (len : ℕ) (data : ℕ → UInt8) (hw : Hardware) (saved : Option UInt32)

def step (s : State) : Event → Option State
  | .addr value => some { s with currentConfigAddr := value }
  | .data wr iosize port data hw saved => pciConfigDataHandler findDriver s wr iosize port data hw saved
  | .mmio bdf regOffset wr len data hw saved => pciConfigMmioHandler findDriver s bdf regOffset wr len data hw saved

def findFunctions (hw : Hardware) (bus : UInt8) (dev : BitVec 5) : List (BitVec 3) → List Device
  | [] => []
  | fn :: rest =>
    let cs := hw (bus, dev, fn)
    if vendorId cs = 0xFFFF then findFunctions hw bus dev rest
    else
      pciNewDevice hw (pciMakeConfigAddress bus dev fn 0) ::
        if fn = 0 ∧ ¬ multiFunction cs then [] else findFunctions hw bus dev rest

def buses : List UInt8 := (List.range 256).map UInt8.ofNat

def deviceNumbers : List (BitVec 5) := (List.range 32).map (BitVec.ofNat 5)

def functionNumbers : List (BitVec 3) := (List.range 8).map (BitVec.ofNat 3)

def bridgeTable (devices : List Device) : UInt8 → Option ℕ :=
  (List.range devices.length).foldl (fun table i =>
    match devices[i]? with
    | none => table
    | some d =>
      if d.bridge.yes ∧ d.bridge.secondaryBusNo ≠ 0 then
        Function.update table d.bridge.secondaryBusNo (some i)
      else table) fun _ => none

def pciFindDevices (hw : Hardware) (saved : ConfigAddress) : State :=
  let found := buses.flatMap fun bus => deviceNumbers.flatMap fun dev => findFunctions hw bus dev functionNumbers
  let s : State := {
    devices := found, bridgeFromBusNo := bridgeTable found, currentConfigAddr := saved, registered := [] }
  let devices := found.map fun d => { d with parentBridge := pciGetBridgeFromBusNo s d.address.busNo }
  { s with
    devices := devices.map fun d => { d with driver := findDriver d }
    registered := (List.range devices.length).filter fun i => (devices[i]?).any findDriver }

end Accesses

end DisasVisor.Pci
