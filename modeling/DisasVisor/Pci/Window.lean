import DisasVisor.Pci.Devices

/-!
Who touches the address register 0xCF8 and the data port 0xCFC of `drivers/pci_core.c`, and when. The CPUs
run in any order, one statement that touches a port, a lock or `current_config_addr` at a time.
-/

namespace DisasVisor.Pci.Window

open Function

inductive Lock
  | configData
  | pciConfig
  deriving DecidableEq

inductive Dir
  | read
  | write
  deriving DecidableEq

inductive Op
  | spinlockLock (lock : Lock)
  | spinlockUnlock (lock : Lock)
  /-- `current_config_addr.value = value` -/
  | setCurrent (value : ConfigAddress)
  /-- `out32 (PCI_CONFIG_ADDR_PORT, value)` -/
  | outAddr (value : ConfigAddress)
  /-- `pci_restore_config_addr` -/
  | restoreAddr
  | ioData
  /-- `caddr = current_config_addr` in `pci_config_data_handler` -/
  | lookUp
  /-- `core_io_handle_default` of the guest's access -/
  | ioDefault
  /-- The guest's access by `pci_readwrite_config_mmio` -/
  | ioMmio
  /-- The part of `pci_handle_default_config_write` after the access by the port. -/
  | readBack
  deriving DecidableEq

def pciReadConfigData (addr : ConfigAddress) : List Op :=
  [.spinlockLock .pciConfig, .outAddr addr, .ioData, .restoreAddr, .spinlockUnlock .pciConfig]

def pciWriteConfigData (addr : ConfigAddress) : List Op :=
  [.spinlockLock .pciConfig, .outAddr addr, .ioData, .restoreAddr, .spinlockUnlock .pciConfig]

def pciReadConfigDataPort : List Op := [.spinlockLock .pciConfig, .ioData, .spinlockUnlock .pciConfig]

-- The source calls the function that reads here.
def pciWriteConfigDataPort : List Op := [.spinlockLock .pciConfig, .ioData, .spinlockUnlock .pciConfig]

def pciConfigAddrHandler (value : ConfigAddress) : List Op :=
  [.spinlockLock .pciConfig, .setCurrent value, .restoreAddr, .spinlockUnlock .pciConfig]

def pciHandleDefaultConfig (configMmio : Bool) : Dir → List Op
  | .read => if configMmio then [.ioMmio] else [.ioDefault]
  | .write => if configMmio then [.ioMmio] else [.ioDefault, .readBack]

inductive Part
  | internal (addr : ConfigAddress)
  | handleDefault

def Part.code (configMmio : Bool) (dir : Dir) : Part → List Op
  | .internal addr => pciReadConfigData addr
  | .handleDefault => pciHandleDefaultConfig configMmio dir

/-- One step of `pci_reconnect_device` and `pci_possible_new_device` by the ports: a register selected
and used a number of times, or the register of the guest put back. -/
inductive Probe
  | register (addr : ConfigAddress) (times : ℕ)
  | restore

def Probe.code : Probe → List Op
  | .register addr times => .outAddr addr :: List.replicate times .ioData
  | .restore => [.restoreAddr]

/-- What the search in `pci_device_list` does to the ports: nothing for a device of the list, and else what
`pci_reconnect_device` does where the device is back or what is done up to `new_device`. -/
inductive Search
  | listed
  | reconnected (addr0 addr8 : ConfigAddress)
  | newDevice (probes : List Probe)

def Search.code : Search → List Op
  | .listed => []
  | .reconnected addr0 addr8 => [.outAddr addr0, .ioData, .outAddr addr8, .ioData, .restoreAddr]
  | .newDevice probes => probes.flatMap Probe.code ++ [.restoreAddr]

inductive Outcome
  | concealed
  | absent
  | device (configMmio : Bool) (new : List ConfigAddress) (handling : List Part)

structure Lookup where
  search : Search
  outcome : Outcome

def Outcome.code (dir : Dir) : Outcome → List Op
  | .concealed => [.spinlockUnlock .configData]
  | .absent => [.spinlockUnlock .configData, .ioDefault]
  | .device configMmio new handling =>
    new.flatMap pciReadConfigData ++ .spinlockUnlock .configData :: handling.flatMap (Part.code configMmio dir)

def pciConfigDataHandler (dir : Dir) (lookup : Lookup) : List Op :=
  [.spinlockLock .configData, .spinlockLock .pciConfig, .lookUp] ++
    lookup.search.code ++
    .spinlockUnlock .pciConfig :: lookup.outcome.code dir

inductive Call
  | configAddr (value : ConfigAddress)
  | configData (dir : Dir) (lookup : Lookup)
  | readConfigData (addr : ConfigAddress)
  | writeConfigData (addr : ConfigAddress)
  | readConfigDataPort
  | writeConfigDataPort

def Call.code (allow : Bool) : Call → List Op
  | .configAddr value => pciConfigAddrHandler value
  | .configData dir lookup => if allow then pciConfigDataHandler dir lookup else [.ioDefault]
  | .readConfigData addr => pciReadConfigData addr
  | .writeConfigData addr => pciWriteConfigData addr
  | .readConfigDataPort => pciReadConfigDataPort
  | .writeConfigDataPort => pciWriteConfigDataPort

variable {Cpu : Type} [DecidableEq Cpu]

/-- `addrPort` is the register of the hardware behind 0xCF8, `caddr` the address that the handler of a
CPU found in `current_config_addr`, `code` what the CPU still has to do. -/
structure State (Cpu : Type) where
  owner : Lock → Option Cpu
  currentConfigAddr : ConfigAddress
  addrPort : ConfigAddress
  caddr : Cpu → ConfigAddress
  code : Cpu → List Op

def writesAddr : List Op → Bool
  | [] => false
  | .spinlockUnlock .pciConfig :: _ => false
  | .setCurrent _ :: _ | .outAddr _ :: _ | .restoreAddr :: _ => true
  | _ :: code => writesAddr code

def State.addrInUse (s : State Cpu) : Bool :=
  match s.owner .pciConfig with
  | none => false
  | some cpu => writesAddr (s.code cpu)

inductive Effect
  | silent
  /-- An access of the guest reaches the hardware: the address at its dispatch, the guest's address now,
  whether another CPU has the address register in use, and the address that the hardware goes by. -/
  | passed (named current : ConfigAddress) (inUse : Bool) (hit : ConfigAddress)
  | left (current addrPort : ConfigAddress)
  deriving DecidableEq

def perform (s : State Cpu) (cpu : Cpu) : List Op → Option (State Cpu × Effect)
  | [] => none
  | .spinlockLock lock :: code =>
    if s.owner lock = none then
      some ({ s with owner := update s.owner lock (some cpu),
                     code := update s.code cpu code }, .silent)
    else none
  | .spinlockUnlock lock :: code =>
    some ({ s with owner := update s.owner lock none,
                   code := update s.code cpu code },
      match lock with
      | .pciConfig => .left s.currentConfigAddr s.addrPort
      | .configData => .silent)
  | .setCurrent value :: code => some ({ s with currentConfigAddr := value, code := update s.code cpu code }, .silent)
  | .outAddr value :: code => some ({ s with addrPort := value, code := update s.code cpu code }, .silent)
  | .restoreAddr :: code => some ({ s with addrPort := s.currentConfigAddr, code := update s.code cpu code }, .silent)
  | .ioData :: code => some ({ s with code := update s.code cpu code }, .silent)
  | .lookUp :: code =>
    some ({ s with caddr := update s.caddr cpu s.currentConfigAddr,
                   code := update s.code cpu code }, .silent)
  | .ioDefault :: code =>
    some ({ s with code := update s.code cpu code }, .passed (s.caddr cpu) s.currentConfigAddr s.addrInUse s.addrPort)
  | .ioMmio :: code =>
    some ({ s with code := update s.code cpu code },
      .passed (s.caddr cpu) s.currentConfigAddr s.addrInUse (s.caddr cpu))
  | .readBack :: code =>
    -- offset >= 0x40
    some ({ s with code := update s.code cpu
                     (if 16 ≤ (s.caddr cpu).regNo.toNat then code else pciReadConfigDataPort ++ code) },
      .silent)

inductive Action (Cpu : Type)
  | call (cpu : Cpu) (call : Call)
  | tick (cpu : Cpu)

def step (s : State Cpu) : Action Cpu → Option (State Cpu × Effect)
  | .call cpu call =>
    if s.code cpu = [] then
      some ({ s with caddr := update s.caddr cpu s.currentConfigAddr,
                     code := update s.code cpu (call.code s.currentConfigAddr.allow) }, .silent)
    else none
  | .tick cpu => perform s cpu (s.code cpu)

def run (s : State Cpu) : List (Action Cpu) → Option (State Cpu × List Effect)
  | [] => some (s, [])
  | action :: actions => do
      let (next, effect) ← step s action
      let (after, effects) ← run next actions
      some (after, effect :: effects)

def State.start (current : ConfigAddress) : State Cpu where
  owner := fun _ => none
  currentConfigAddr := current
  addrPort := current
  caddr := fun _ => current
  code := fun _ => []

def selects (addr : ConfigAddress) : Bool × Bdf × BitVec 6 := (addr.allow, addr.bdf, addr.regNo)

/-- The guest's access reaches the device and register that were selected at its dispatch; whoever gives
`pci_config_lock` back leaves the guest's address in the register. -/
def Effect.Faithful : Effect → Prop
  | .silent => True
  | .passed named _ _ hit => selects hit = selects named
  | .left current addrPort => addrPort = current

/-- While the access was on its way, the guest selected nothing else, and at the access itself no other
CPU has the address register in use. -/
def Effect.Undisturbed : Effect → Prop
  | .passed named current inUse _ => selects current = selects named ∧ inUse = false
  | _ => True

/-!
The accesses of the guest against the register that it selected: the lock keeps `current_config_addr` in the
hardware whenever nobody writes there, but the access itself is made without the lock.
-/

/-- Where a CPU stands: outside `pci_config_lock`, or inside with the guest's address in the register or
perhaps another one. -/
inductive Hold
  | out
  | clean
  | dirty
  deriving DecidableEq

def Op.next (hold : Hold) : Op → Option Hold
  | .spinlockLock .configData | .spinlockUnlock .configData => some hold
  | .spinlockLock .pciConfig => if hold = .out then some .clean else none
  | .spinlockUnlock .pciConfig => if hold = .clean then some .out else none
  | .setCurrent _ | .outAddr _ => if hold = .out then none else some .dirty
  | .restoreAddr => if hold = .out then none else some .clean
  | .ioData => if hold = .out then none else some hold
  | .lookUp => if hold = .clean then some .clean else none
  | .ioDefault | .ioMmio | .readBack => if hold = .out then some .out else none

def leads (hold : Hold) (code : List Op) : Option Hold := code.foldlM Op.next hold

theorem leads_cons (hold : Hold) (op : Op) (code : List Op) :
    leads hold (op :: code) = (op.next hold).bind (leads · code) := by
  simp [leads]

theorem leads_append (hold : Hold) (first second : List Op) :
    leads hold (first ++ second) = (leads hold first).bind (leads · second) := by
  simp [leads, List.foldlM_append]

theorem leads_flatMap {α : Type} (part : α → List Op) {hold : Hold} (loops : ∀ a, leads hold (part a) = some hold)
    (list : List α) : leads hold (list.flatMap part) = some hold := by
  induction list with
  | nil => rfl
  | cons a list ih => rw [List.flatMap_cons, leads_append, loops, Option.bind_some, ih]

theorem leads_replicate_ioData (times : ℕ) : leads .dirty (List.replicate times .ioData) = some .dirty := by
  induction times with
  | zero => rfl
  | succ times ih => rw [List.replicate_succ, leads_cons]; exact ih

theorem leads_probes (probes : List Probe) : ∀ hold, hold ≠ .out →
    ∃ after, after ≠ .out ∧ leads hold (probes.flatMap Probe.code) = some after := by
  induction probes with
  | nil => exact fun hold inside => ⟨hold, inside, rfl⟩
  | cons probe probes ih =>
    intro hold inside
    rw [List.flatMap_cons, leads_append]
    cases probe with
    | register addr times =>
      have selected : leads hold (Probe.register addr times).code = some .dirty := by
        rw [Probe.code, leads_cons]
        simp [Op.next, inside, leads_replicate_ioData]
      rw [selected]
      exact ih .dirty (by decide)
    | restore =>
      have restored : leads hold Probe.restore.code = some .clean := by simp [Probe.code, leads, Op.next, inside]
      rw [restored]
      exact ih .clean (by decide)

theorem leads_search (search : Search) : leads .clean search.code = some .clean := by
  cases search with
  | listed => rfl
  | reconnected addr0 addr8 => rfl
  | newDevice probes =>
    obtain ⟨after, inside, probed⟩ := leads_probes probes .clean (by decide)
    rw [Search.code, leads_append, probed]
    simp [leads, Op.next, inside]

theorem leads_part (configMmio : Bool) (dir : Dir) (part : Part) :
    leads .out (part.code configMmio dir) = some .out := by
  cases part with
  | internal addr => rfl
  | handleDefault => cases configMmio <;> cases dir <;> rfl

theorem leads_outcome (dir : Dir) (outcome : Outcome) : leads .out (outcome.code dir) = some .out := by
  cases outcome with
  | concealed => rfl
  | absent => rfl
  | device configMmio new handling =>
    rw [Outcome.code, leads_append, leads_flatMap pciReadConfigData (fun _ => rfl), Option.bind_some, leads_cons]
    exact leads_flatMap _ (leads_part configMmio dir) handling

theorem leads_call (allow : Bool) (call : Call) : leads .out (call.code allow) = some .out := by
  cases call with
  | configAddr value => rfl
  | configData dir lookup =>
    cases allow with
    | false => rfl
    | true =>
      have searched : leads .out ([.spinlockLock .configData, .spinlockLock .pciConfig, .lookUp] ++
          lookup.search.code) = some .clean := leads_search lookup.search
      rw [Call.code, if_pos rfl, pciConfigDataHandler, leads_append, searched]
      exact leads_outcome dir lookup.outcome
  | readConfigData addr => rfl
  | writeConfigData addr => rfl
  | readConfigDataPort => rfl
  | writeConfigDataPort => rfl

theorem writesAddr_of_dirty (code : List Op) (dirty : leads .dirty code = some .out) : writesAddr code = true := by
  induction code with
  | nil => cases dirty
  | cons op code ih =>
    rw [leads_cons] at dirty
    cases op with
    | spinlockLock lock =>
      cases lock with
      | configData => exact ih dirty
      | pciConfig => cases dirty
    | spinlockUnlock lock =>
      cases lock with
      | configData => exact ih dirty
      | pciConfig => cases dirty
    | setCurrent value => rfl
    | outAddr value => rfl
    | restoreAddr => rfl
    | ioData => exact ih dirty
    | lookUp => cases dirty
    | ioDefault => cases dirty
    | ioMmio => cases dirty
    | readBack => cases dirty

/-- One CPU at most is inside the lock, and the hardware has the guest's address unless that CPU still has to
restore it. -/
structure Locked (s : State Cpu) (hold : Cpu → Hold) : Prop where
  code : ∀ cpu, leads (hold cpu) (s.code cpu) = some .out
  owner : ∀ cpu, hold cpu ≠ .out ↔ s.owner .pciConfig = some cpu
  addrPort : (∀ cpu, hold cpu ≠ .dirty) → s.addrPort = s.currentConfigAddr

variable {s after : State Cpu} {hold : Cpu → Hold}

section

variable (inv : Locked s hold)
include inv

theorem Locked.code_update (cpu : Cpu) {next : Hold} {code : List Op}
    (goes : leads next code = some .out) (other : Cpu) :
    leads (update hold cpu next other) (update s.code cpu code other) = some .out := by
  by_cases same : other = cpu
  · subst other
    simpa using goes
  · simpa [same] using inv.code other

theorem Locked.quiet (cpu : Cpu) {code : List Op} (goes : leads (hold cpu) code = some .out)
    (codes : after.code = update s.code cpu code) (owner : after.owner .pciConfig = s.owner .pciConfig)
    (current : after.currentConfigAddr = s.currentConfigAddr) (port : after.addrPort = s.addrPort) :
    Locked after hold where
  code := by
    intro other
    have kept := inv.code_update cpu goes other
    rwa [Function.update_eq_self, ← codes] at kept
  owner := by rw [owner]; exact inv.owner
  addrPort := by rw [current, port]; exact inv.addrPort

theorem Locked.writes (cpu : Cpu) {next : Hold} {code : List Op} (inside : hold cpu ≠ .out)
    (stays : next ≠ .out) (goes : leads next code = some .out) (codes : after.code = update s.code cpu code)
    (owner : after.owner = s.owner) (restored : next = .dirty ∨ after.addrPort = after.currentConfigAddr) :
    Locked after (update hold cpu next) where
  code := by rw [codes]; exact inv.code_update cpu goes
  owner := by
    intro other
    rw [owner, ← inv.owner other]
    by_cases same : other = cpu
    · subst other
      simp [inside, stays]
    · simp [same]
  addrPort := by
    intro none
    rcases restored with dirty | restored
    · exact absurd dirty (by simpa using none cpu)
    · exact restored

theorem Locked.lock (cpu : Cpu) {code : List Op} (free : s.owner .pciConfig = none)
    (goes : leads .clean code = some .out) (codes : after.code = update s.code cpu code)
    (owner : after.owner .pciConfig = some cpu) (current : after.currentConfigAddr = s.currentConfigAddr)
    (port : after.addrPort = s.addrPort) :
    Locked after (update hold cpu .clean) where
  code := by rw [codes]; exact inv.code_update cpu goes
  owner := by
    intro other
    have outside : hold other = .out := by
      by_contra inside
      rw [(inv.owner other).mp inside] at free
      cases free
    by_cases same : other = cpu
    · subst other
      simp [owner]
    · simp [same, outside, owner, Ne.symm same]
  addrPort := by
    intro none
    rw [current, port]
    refine inv.addrPort fun other dirty => ?_
    have inside : hold other ≠ .out := by rw [dirty]; decide
    rw [(inv.owner other).mp inside] at free
    cases free

theorem Locked.outside {cpu : Cpu} (inside : hold cpu ≠ .out) (other : Cpu)
    (different : other ≠ cpu) : hold other = .out := by
  by_contra both
  have holder := (inv.owner cpu).mp inside
  rw [(inv.owner other).mp both] at holder
  exact different (Option.some.inj holder)

theorem Locked.restored {cpu : Cpu} (clean : hold cpu = .clean) : s.addrPort = s.currentConfigAddr := by
  refine inv.addrPort fun other dirty => ?_
  by_cases same : other = cpu
  · rw [same, clean] at dirty
    cases dirty
  · rw [inv.outside (by rw [clean]; decide) other same] at dirty
    cases dirty

theorem Locked.unlock (cpu : Cpu) {code : List Op} (clean : hold cpu = .clean)
    (goes : leads .out code = some .out) (codes : after.code = update s.code cpu code)
    (owner : after.owner .pciConfig = none) (current : after.currentConfigAddr = s.currentConfigAddr)
    (port : after.addrPort = s.addrPort) :
    Locked after (update hold cpu .out) where
  code := by rw [codes]; exact inv.code_update cpu goes
  owner := by
    intro other
    by_cases same : other = cpu
    · subst other
      simp [owner]
    · simp [same, inv.outside (by rw [clean]; decide) other same, owner]
  addrPort := fun _ => by rw [current, port, inv.restored clean]

theorem Locked.settled (unused : s.addrInUse = false) : s.addrPort = s.currentConfigAddr := by
  refine inv.addrPort fun cpu dirty => ?_
  have holder : s.owner .pciConfig = some cpu := (inv.owner cpu).mp (by rw [dirty]; decide)
  have code := inv.code cpu
  rw [dirty] at code
  rw [State.addrInUse, holder] at unused
  exact absurd (writesAddr_of_dirty _ code) (by simp [unused])

theorem Locked.perform {effect : Effect} (cpu : Cpu) (step : perform s cpu (s.code cpu) = some (after, effect)) :
    (∃ hold, Locked after hold) ∧ (effect.Undisturbed → effect.Faithful) := by
  have goes := inv.code cpu
  generalize s.code cpu = program at step goes
  cases program with
  | nil => cases step
  | cons op code =>
    rw [leads_cons] at goes
    obtain ⟨next, allowed, goes⟩ := Option.bind_eq_some_iff.mp goes
    cases op with
    | spinlockLock lock =>
      obtain ⟨free, same⟩ := Option.ite_none_right_eq_some.mp step
      cases same
      refine ⟨?_, fun _ => trivial⟩
      cases lock with
      | configData =>
        cases allowed
        exact ⟨hold, inv.quiet cpu goes rfl (by simp) rfl rfl⟩
      | pciConfig =>
        obtain ⟨-, same⟩ := Option.ite_none_right_eq_some.mp allowed
        cases same
        exact ⟨_, inv.lock cpu free goes rfl (by simp) rfl rfl⟩
    | spinlockUnlock lock =>
      cases step
      cases lock with
      | configData =>
        cases allowed
        exact ⟨⟨hold, inv.quiet cpu goes rfl (by simp) rfl rfl⟩, fun _ => trivial⟩
      | pciConfig =>
        obtain ⟨clean, same⟩ := Option.ite_none_right_eq_some.mp allowed
        cases same
        exact ⟨⟨_, inv.unlock cpu clean goes rfl (by simp) rfl rfl⟩, fun _ => inv.restored clean⟩
    | setCurrent value =>
      cases step
      obtain ⟨inside, same⟩ := Option.ite_none_left_eq_some.mp allowed
      cases same
      exact ⟨⟨_, inv.writes cpu inside (by decide) goes rfl rfl (.inl rfl)⟩, fun _ => trivial⟩
    | outAddr value =>
      cases step
      obtain ⟨inside, same⟩ := Option.ite_none_left_eq_some.mp allowed
      cases same
      exact ⟨⟨_, inv.writes cpu inside (by decide) goes rfl rfl (.inl rfl)⟩, fun _ => trivial⟩
    | restoreAddr =>
      cases step
      obtain ⟨inside, same⟩ := Option.ite_none_left_eq_some.mp allowed
      cases same
      exact ⟨⟨_, inv.writes cpu inside (by decide) goes rfl rfl (.inr rfl)⟩, fun _ => trivial⟩
    | ioData =>
      cases step
      obtain ⟨-, same⟩ := Option.ite_none_left_eq_some.mp allowed
      cases same
      exact ⟨⟨hold, inv.quiet cpu goes rfl rfl rfl rfl⟩, fun _ => trivial⟩
    | lookUp =>
      cases step
      obtain ⟨clean, same⟩ := Option.ite_none_right_eq_some.mp allowed
      cases same
      have stays : leads (hold cpu) code = some .out := by rw [clean]; exact goes
      exact ⟨⟨hold, inv.quiet cpu stays rfl rfl rfl rfl⟩, fun _ => trivial⟩
    | ioDefault =>
      cases step
      obtain ⟨out, same⟩ := Option.ite_none_right_eq_some.mp allowed
      cases same
      have stays : leads (hold cpu) code = some .out := by rw [out]; exact goes
      refine ⟨⟨hold, inv.quiet cpu stays rfl rfl rfl rfl⟩, ?_⟩
      rintro ⟨same, unused⟩
      exact (congrArg selects (inv.settled unused)).trans same
    | ioMmio =>
      cases step
      obtain ⟨out, same⟩ := Option.ite_none_right_eq_some.mp allowed
      cases same
      have stays : leads (hold cpu) code = some .out := by rw [out]; exact goes
      exact ⟨⟨hold, inv.quiet cpu stays rfl rfl rfl rfl⟩, fun _ => rfl⟩
    | readBack =>
      cases step
      obtain ⟨out, same⟩ := Option.ite_none_right_eq_some.mp allowed
      cases same
      refine ⟨⟨hold, inv.quiet cpu ?_ rfl rfl rfl rfl⟩, fun _ => trivial⟩
      rw [out]
      split
      · exact goes
      · rw [leads_append]
        exact goes

theorem Locked.step {action : Action Cpu} {effect : Effect} (stepped : step s action = some (after, effect)) :
    (∃ hold, Locked after hold) ∧ (effect.Undisturbed → effect.Faithful) := by
  cases action with
  | call cpu call =>
    obtain ⟨idle, same⟩ := Option.ite_none_right_eq_some.mp stepped
    cases same
    have out : hold cpu = .out := by
      have code := inv.code cpu
      rw [idle] at code
      exact Option.some.inj code
    have goes : leads (hold cpu) (call.code s.currentConfigAddr.allow) = some .out := by
      rw [out]
      exact leads_call _ call
    exact ⟨⟨hold, inv.quiet cpu goes rfl rfl rfl rfl⟩, fun _ => trivial⟩
  | tick cpu => exact inv.perform cpu stepped

end

theorem Locked.run (actions : List (Action Cpu)) : ∀ {s after : State Cpu} {hold : Cpu → Hold}
    {effects : List Effect}, Locked s hold → run s actions = some (after, effects) →
      ∀ effect ∈ effects, effect.Undisturbed → effect.Faithful := by
  induction actions with
  | nil =>
    intro s after hold effects inv ran
    cases ran
    simp
  | cons action actions ih =>
    intro s after hold effects inv ran
    obtain ⟨⟨next, first⟩, stepped, ran⟩ := Option.bind_eq_some_iff.mp ran
    obtain ⟨⟨last, later⟩, rest, same⟩ := Option.bind_eq_some_iff.mp ran
    cases same
    obtain ⟨⟨_, kept⟩, faithful⟩ := inv.step stepped
    rw [List.forall_mem_cons]
    exact ⟨faithful, ih kept rest⟩

omit [DecidableEq Cpu] in
theorem locked_start (current : ConfigAddress) : Locked (State.start current : State Cpu) (fun _ => .out) where
  code := fun _ => rfl
  owner := by simp [State.start]
  addrPort := fun _ => rfl

/-- In every order of the calls of all CPUs a VMM access leaves the guest's address in the register, and an
access of the guest reaches the register selected at its dispatch unless it was disturbed on its way. -/
theorem config_faithful (current : ConfigAddress) (actions : List (Action Cpu)) (after : State Cpu)
    (effects : List Effect) (ran : run (State.start current) actions = some (after, effects)) :
    ∀ effect ∈ effects, effect.Undisturbed → effect.Faithful :=
  (locked_start current).run actions ran

def exampleAddress (dev : BitVec 5) : ConfigAddress := pciMakeConfigAddress 0 dev 0 0

def exampleRead : Call := .configData .read ⟨.listed, .device false [] [.handleDefault]⟩

def readAlone : List (Action Bool) :=
  [.call false (.configAddr (exampleAddress 1)), .tick false, .tick false, .tick false, .tick false,
    .call false exampleRead, .tick false, .tick false, .tick false, .tick false, .tick false, .tick false]

theorem readAlone_effects : (run (State.start (exampleAddress 0)) readAlone).map Prod.snd =
    some ([.silent, .silent, .silent, .silent, .left (exampleAddress 1) (exampleAddress 1), .silent, .silent, .silent,
      .silent, .left (exampleAddress 1) (exampleAddress 1), .silent,
      .passed (exampleAddress 1) (exampleAddress 1) false (exampleAddress 1)]) := by decide

theorem config_faithful_readAlone : ∃ after effects, run (State.start (exampleAddress 0)) readAlone = some (after, effects) ∧
    ∀ effect ∈ effects, effect.Undisturbed → effect.Faithful := by
  obtain ⟨⟨after, effects⟩, ran, -⟩ := Option.map_eq_some_iff.mp readAlone_effects
  exact ⟨after, effects, ran, config_faithful (exampleAddress 0) readAlone after effects ran⟩

def readDisturbed : List (Action Bool) :=
  [.call false exampleRead, .tick false, .tick false, .tick false, .tick false, .tick false,
    .call true (.readConfigData (exampleAddress 2)), .tick true, .tick true, .tick false]

theorem readDisturbed_effects : (run (State.start (exampleAddress 1)) readDisturbed).map Prod.snd =
    some ([.silent, .silent, .silent, .silent, .left (exampleAddress 1) (exampleAddress 1), .silent, .silent, .silent,
      .silent, .passed (exampleAddress 1) (exampleAddress 1) true (exampleAddress 2)]) := by decide

theorem config_not_faithful : ¬ ∀ (current : ConfigAddress) (actions : List (Action Bool)) (after : State Bool)
    (effects : List Effect), run (State.start current) actions = some (after, effects) →
      ∀ effect ∈ effects, effect.Faithful := by
  intro all
  obtain ⟨⟨after, effects⟩, ran, same⟩ := Option.map_eq_some_iff.mp readDisturbed_effects
  subst same
  have hit := all _ _ _ _ ran (.passed (exampleAddress 1) (exampleAddress 1) true (exampleAddress 2)) (by simp)
  exact absurd hit (by decide : selects (exampleAddress 2) ≠ selects (exampleAddress 1))

end DisasVisor.Pci.Window
