import DisasVisor.Vpn.Ip4Packets
import DisasVisor.Lib.Segments

/-!
Address resolution in `vpn/lib/Se/SeIp4.c`: `Se4SendRawIp`, the ARP cache, the ARP requests that run and
the packets that wait for them. Blocks of memory are numbered in the order of their allocation, and what
is done with a block that is not allocated has no result.
-/

namespace DisasVisor.Vpn.Arp

open Ip4

abbrev Mac := Fin 6 → UInt8

structure Header where
  hardwareType : UInt16
  protocolType : UInt16
  hardwareSize : UInt8
  protocolSize : UInt8
  operation : UInt16
  srcAddress : Mac
  srcIP : Addr
  targetAddress : Mac
  targetIP : Addr

structure ArpEntry where
  ipAddress : Addr
  macAddress : Mac
  created : UInt64
  expire : UInt64

structure ArpWait where
  ipAddress : Addr
  intervalValue : UInt64
  sendCounter : UInt32

/-- `SE_IPV4_WAIT`, with the block that it is in itself; the size is that of the block `data`. -/
structure IpWait where
  address : ℕ
  srcIP : Addr
  destIPLocal : Addr
  expire : UInt64
  data : ℕ

/-- What the code does that is seen outside of its lists: the calls of `Se4SendRawIp`, `Se4InsertIpWait`,
`Se4SendIpFragmentNow` and `SeFree`, the ARP packets, and the relations that go to the ARP cache. -/
inductive Action
  | sendRawIp (buf : ℕ) (data : List UInt8)
  | insertIpWait (buf : ℕ) (destIpLocal : Addr)
  | sendIpFragmentNow (buf : ℕ) (destMac : Mac) (data : List UInt8)
  | sendArp (destMac : Mac) (arp : Header)
  | known (ip : Addr) (mac : Mac)
  | free (block : ℕ)

structure Config where
  ipAddress : Addr
  subnetMask : Addr
  defaultGateway : Addr
  useDefaultGateway : Bool
  useProxyArp : Bool
  proxyArpExceptionAddress : Addr
  myMacAddress : Mac
  optionV4ArpExpires : UInt32
  optionV4ArpDontUpdateExpires : Bool

/-- The lists of `SE_IPV4` and the tick of its VPN, with the memory and with all actions so far, each with
the tick at which it was done. -/
structure Ipv4 where
  tick : UInt64
  arpEntryList : List ArpEntry
  arpWaitList : List ArpWait
  ipWaitList : List IpWait
  next : ℕ
  heap : ℕ → Option (List UInt8)
  trace : List (UInt64 × Action)

def se4Init : Ipv4 := ⟨0, [], [], [], 0, fun _ => none, []⟩

namespace Ipv4

def log (p : Ipv4) (actions : List Action) : Ipv4 :=
  { p with trace := p.trace ++ actions.map fun action => (p.tick, action) }

def malloc (p : Ipv4) (bytes : List UInt8) : Ipv4 :=
  { p with next := p.next + 1, heap := Function.update p.heap p.next (some bytes) }

def free (p : Ipv4) (block : ℕ) : Option Ipv4 :=
  match p.heap block with
  | none => none
  | some _ => some ({ p with heap := Function.update p.heap block none }.log [.free block])

end Ipv4

def se4And (a b : Addr) : Addr := fun i => a i &&& b i

def se4Or (a b : Addr) : Addr := fun i => a i ||| b i

def se4Not (a : Addr) : Addr := fun i => ~~~a i

def se4IPToUINT (a : Addr) : ℕ := (a 0).toNat + 256 * ((a 1).toNat + 256 * ((a 2).toNat + 256 * (a 3).toNat))

def se4GetNetworkAddress (addr subnet : Addr) : Addr := se4And addr subnet

def se4GetBroadcastAddress (addr subnet : Addr) : Addr := se4Or (se4GetNetworkAddress addr subnet) (se4Not subnet)

def se4IsInSameNetwork (a1 a2 subnet : Addr) : Bool := se4GetNetworkAddress a1 subnet = se4GetNetworkAddress a2 subnet

def se4IsBroadcastAddress (addr : Addr) : Bool := se4IPToUINT addr = 0xffffffff

def se4BroadcastMacAddress : Mac := fun _ => 0xff

def modifyFirst {α : Type} (is : α → Bool) (change : α → α) : List α → List α
  | [] => []
  | a :: as => if is a then change a :: as else a :: modifyFirst is change as

def seInsert {α : Type} (ipAddress : α → Addr) (a : α) : List α → List α
  | [] => [a]
  | b :: bs =>
    if se4IPToUINT (ipAddress b) > se4IPToUINT (ipAddress a) then a :: b :: bs
    else b :: seInsert ipAddress a bs

def se4FlushArpEntryList (o : List ArpEntry) (tick : UInt64) : List ArpEntry :=
  o.filter fun e => !decide (tick > e.expire)

def se4SearchArpEntryList (o : List ArpEntry) (a : Addr) (tick : UInt64) (expireSpan : UInt32)
    (dontUpdateExpire : Bool) : List ArpEntry × Option ArpEntry :=
  let o := se4FlushArpEntryList o tick
  match o.find? fun e => e.ipAddress = a with
  | none => (o, none)
  | some r =>
    if dontUpdateExpire then (o, some r)
    else
      let r := { r with expire := tick + expireSpan.toUInt64 * 1000 }
      (modifyFirst (fun e => e.ipAddress = a) (fun _ => r) o, some r)

def se4AddArpEntryList (o : List ArpEntry) (tick : UInt64) (expireSpan : UInt32) (ipAddress : Addr)
    (macAddress : Mac) : List ArpEntry :=
  match se4SearchArpEntryList o ipAddress tick expireSpan false with
  | (o, some t) =>
    if t.macAddress ≠ macAddress then
      modifyFirst (fun e => e.ipAddress = ipAddress) (fun t => { t with macAddress := macAddress, created := tick }) o
    else o
  | (o, none) => seInsert ArpEntry.ipAddress ⟨ipAddress, macAddress, tick, tick + expireSpan.toUInt64 * 1000⟩ o

def seIpv4ArpSendInterval : ℕ := 1

def seIpv4ArpSendCount : ℕ := 5

def seVpnDoInterval (tick var : UInt64) (interval : ℕ) : UInt64 × Bool :=
  if var = 0 ∨ var + UInt64.ofNat interval ≤ tick then (tick, true) else (var, false)

/-- `Se4SendArpDoProcess`: the item after it, its result and what it sends. -/
def se4SendArpDoProcess (c : Config) (tick : UInt64) (w : ArpWait) : ArpWait × Bool × List Action :=
  let interval := seVpnDoInterval tick w.intervalValue (seIpv4ArpSendInterval * 1000)
  let w := { w with intervalValue := interval.1 }
  if interval.2 then
    if w.sendCounter.toNat ≥ seIpv4ArpSendCount then
      ({ w with sendCounter := w.sendCounter + 1 }, true, [])
    else
      ({ w with sendCounter := w.sendCounter + 1 }, false,
        [.sendArp se4BroadcastMacAddress ⟨1, 0x0800, 6, 4, 1, c.myMacAddress, c.ipAddress,
          fun _ => 0, w.ipAddress⟩])
  else (w, false, [])

def se4SendArpRequest (c : Config) (p : Ipv4) (ip : Addr) : Ipv4 :=
  let found : ArpWait × List ArpWait :=
    match p.arpWaitList.find? fun w => w.ipAddress = ip with
    | some w => ({ w with sendCounter := 0 }, p.arpWaitList)
    | none => (⟨ip, 0, 0⟩, seInsert ArpWait.ipAddress ⟨ip, 0, 0⟩ p.arpWaitList)
  let processed := se4SendArpDoProcess c p.tick found.1
  { p with arpWaitList := modifyFirst (fun w => w.ipAddress = ip) (fun _ => processed.1) found.2 }.log
    processed.2.2

def se4ProcessArpWaitList (c : Config) (p : Ipv4) : Ipv4 :=
  let processed := p.arpWaitList.map (se4SendArpDoProcess c p.tick)
  let kept := (processed.filter fun r => !r.2.1).map Prod.fst
  let sent := processed.flatMap fun (r : ArpWait × Bool × List Action) => r.2.2
  { p with arpWaitList := kept }.log sent

def se4SendIpFragmentNow (p : Ipv4) (destMac : Mac) (buf : ℕ) : Option Ipv4 :=
  match p.heap buf with
  | none => none
  | some data => some (p.log [.sendIpFragmentNow buf destMac data])

def se4FreeIpWait (p : Ipv4) (w : IpWait) : Option Ipv4 := do
  let p ← p.free w.data
  p.free w.address

def deleteIpWait (p : Ipv4) (w : IpWait) : Ipv4 :=
  { p with ipWaitList := p.ipWaitList.eraseP fun v => v.address = w.address }

def sendTurn (macAddr : Mac) (p : Ipv4) (w : IpWait) : Option Ipv4 := do
  let p ← se4SendIpFragmentNow p macAddr w.data
  se4FreeIpWait (deleteIpWait p w) w

def se4SendWaitingIpWait (p : Ipv4) (ipAddrLocal : Addr) (macAddr : Mac) : Option Ipv4 :=
  (p.ipWaitList.filter fun w => w.destIPLocal = ipAddrLocal).foldlM (sendTurn macAddr) p

def flushTurn (p : Ipv4) (w : IpWait) : Option Ipv4 := do
  let p ← se4FreeIpWait p w
  some (deleteIpWait p w)

def se4FlushIpWaitList (p : Ipv4) : Option Ipv4 := (p.ipWaitList.filter fun w => w.expire ≤ p.tick).foldlM flushTurn p

def waitExpire (tick : UInt64) : UInt64 := tick + UInt64.ofNat (seIpv4ArpSendInterval * seIpv4ArpSendCount) * 1000

def se4InsertIpWait (p : Ipv4) (destIpLocal srcIp : Addr) (buf : ℕ) : Ipv4 :=
  let w : IpWait := ⟨p.next, srcIp, destIpLocal, waitExpire p.tick, buf⟩
  { p.malloc [] with ipWaitList := p.ipWaitList ++ [w] }.log [.insertIpWait buf destIpLocal]

def nextHop (c : Config) (destIp : Addr) : Option Addr :=
  if se4IsInSameNetwork c.ipAddress destIp c.subnetMask = false then
    if c.useDefaultGateway then some c.defaultGateway else none
  else some destIp

def sendAndFree (p : Ipv4) (destMac : Mac) (buf : ℕ) : Option Ipv4 := do
  let p ← se4SendIpFragmentNow p destMac buf
  p.free buf

def se4SendRawIp (c : Config) (p : Ipv4) (buf : ℕ) (destMac : Option Mac) : Option Ipv4 :=
  match p.heap buf with
  | none => none
  | some data =>
    let p := p.log [.sendRawIp buf data]
    if data.length ≤ 20 then some p
    else
      let ip := readHeader data
      match destMac with
      | some mac => sendAndFree p mac buf
      | none =>
        if se4IsBroadcastAddress ip.dstIP ∨
            se4GetBroadcastAddress c.ipAddress c.subnetMask = ip.dstIP then
          sendAndFree p se4BroadcastMacAddress buf
        else
          match nextHop c ip.dstIP with
          | none => p.free buf
          | some destIpLocal =>
            let search := se4SearchArpEntryList p.arpEntryList destIpLocal p.tick
              c.optionV4ArpExpires c.optionV4ArpDontUpdateExpires
            let p := { p with arpEntryList := search.1 }
            match search.2 with
            | some e => sendAndFree p e.macAddress buf
            | none => some (se4SendArpRequest c (se4InsertIpWait p destIpLocal ip.srcIP buf) destIpLocal)

def se4MacIpRelationKnown (c : Config) (p : Ipv4) (ipAddr : Addr) (macAddr : Mac) : Option Ipv4 :=
  if se4IsInSameNetwork c.ipAddress ipAddr c.subnetMask = false then some p
  else
    let p := { p with
      arpWaitList := p.arpWaitList.eraseP fun w => w.ipAddress = ipAddr
      arpEntryList := se4AddArpEntryList p.arpEntryList p.tick c.optionV4ArpExpires ipAddr macAddr }
    se4SendWaitingIpWait (p.log [.known ipAddr macAddr]) ipAddr macAddr

def arpResponse (c : Config) (destMac : Mac) (destIp srcIp : Addr) : Action :=
  .sendArp destMac ⟨1, 0x0800, 6, 4, 2, c.myMacAddress, srcIp, destMac, destIp⟩

def arpAnswers (c : Config) (arp : Header) : List Action :=
  if arp.targetIP = c.ipAddress then [arpResponse c arp.srcAddress arp.srcIP c.ipAddress]
  else if c.useProxyArp ∧ c.proxyArpExceptionAddress ≠ arp.targetIP ∧
      se4IsInSameNetwork arp.targetIP c.ipAddress c.subnetMask ∧
      se4IsBroadcastAddress arp.targetIP = false ∧
      se4GetBroadcastAddress c.ipAddress c.subnetMask ≠ arp.targetIP ∧
      se4GetNetworkAddress c.ipAddress c.subnetMask ≠ arp.targetIP then
    [arpResponse c arp.srcAddress arp.srcIP arp.targetIP]
  else []

def se4RecvArp (c : Config) (p : Ipv4) (source : Mac) (arp : Header) : Option Ipv4 :=
  if arp.hardwareType = 1 ∧ arp.protocolType = 0x0800 ∧ arp.hardwareSize = 6 ∧ arp.protocolSize = 4 ∧
      arp.srcAddress = source then
    if arp.operation = 1 then do
      let p ← se4MacIpRelationKnown c p arp.srcIP arp.srcAddress
      some (p.log (arpAnswers c arp))
    else if arp.operation = 2 then se4MacIpRelationKnown c p arp.srcIP arp.srcAddress
    else some p
  else some p

def se4MainProc (c : Config) (p : Ipv4) : Option Ipv4 := se4FlushIpWaitList (se4ProcessArpWaitList c p)

/-- What may happen: the main handler reads the clock, a caller hands over a packet in a block of its own,
a packet is received (for an IP packet, one whose checksum is right), and `Se4MainProc` runs. -/
inductive Event
  | clock (tick : UInt64)
  | sendRawIp (data : List UInt8) (destMac : Option Mac)
  | recvArp (source : Mac) (arp : Header)
  | recvIp (source : Mac) (srcIP : Addr)
  | mainProc

def step (c : Config) (p : Ipv4) : Event → Option Ipv4
  | .clock tick => some { p with tick := tick }
  | .sendRawIp data destMac => se4SendRawIp c (p.malloc data) p.next destMac
  | .recvArp source arp => if source = c.myMacAddress then some p else se4RecvArp c p source arp
  | .recvIp source srcIP => if source = c.myMacAddress then some p else se4MacIpRelationKnown c p srcIP source
  | .mainProc => se4MainProc c p

def run (c : Config) : Ipv4 → List Event → Option Ipv4
  | p, [] => some p
  | p, event :: events =>
    match step c p event with
    | none => none
    | some p' => run c p' events

/-!
How packets leave `IpWaitList`: the loops of `Se4SendWaitingIpWait` and `Se4FlushIpWaitList` take exactly
the packets that they look for, in the order of the list, and free each of them once.
-/

open Function Splits List

variable {c : Config} {p p' : Ipv4} {w : IpWait} {buf block : ℕ} {mac : Mac} {data : List UInt8}

namespace Ipv4

def settle (p : Ipv4) (w : IpWait) (actions : List Action) : Ipv4 :=
  { p with
    ipWaitList := p.ipWaitList.eraseP fun v => v.address = w.address
    heap := update (update p.heap w.data none) w.address none }.log actions

structure Owned (p : Ipv4) : Prop where
  addresses : (p.ipWaitList.map IpWait.address).Nodup
  buffers : (p.ipWaitList.map IpWait.data).Nodup
  apart : ∀ v ∈ p.ipWaitList, ∀ w ∈ p.ipWaitList, v.address ≠ w.data
  data : ∀ w ∈ p.ipWaitList, (p.heap w.data).isSome
  entry : ∀ w ∈ p.ipWaitList, (p.heap w.address).isSome

def bytes (p : Ipv4) (block : ℕ) : List UInt8 := (p.heap block).getD []

theorem Owned.heap_data (owned : p.Owned) (waits : w ∈ p.ipWaitList) : p.heap w.data = some (p.bytes w.data) := by
  obtain ⟨held, is⟩ := Option.isSome_iff_exists.mp (owned.data w waits)
  unfold bytes
  rw [is, Option.getD_some]

theorem Owned.of_sublist (owned : p.Owned) (fewer : p'.ipWaitList.Sublist p.ipWaitList)
    (heap : ∀ w ∈ p'.ipWaitList, p'.heap w.data = p.heap w.data ∧ p'.heap w.address = p.heap w.address) :
    p'.Owned where
  addresses := owned.addresses.sublist (fewer.map _)
  buffers := owned.buffers.sublist (fewer.map _)
  apart := fun v first w second => owned.apart v (fewer.subset first) w (fewer.subset second)
  data := fun w waits => by
    rw [(heap w waits).1]
    exact owned.data w (fewer.subset waits)
  entry := fun w waits => by
    rw [(heap w waits).2]
    exact owned.entry w (fewer.subset waits)

end Ipv4

theorem free_eq (allocated : (p.heap block).isSome) :
    p.free block = some ({ p with heap := update p.heap block none }.log [.free block]) := by
  obtain ⟨held, is⟩ := Option.isSome_iff_exists.mp allocated
  unfold Ipv4.free
  rw [is]

theorem se4FreeIpWait_eq (here : (p.heap w.data).isSome) (entry : (p.heap w.address).isSome)
    (apart : w.address ≠ w.data) :
    se4FreeIpWait p w = some ({ p with
      heap := update (update p.heap w.data none) w.address none }.log [.free w.data, .free w.address]) := by
  have still : (update p.heap w.data none w.address).isSome := by
    rw [update_of_ne apart]
    exact entry
  unfold se4FreeIpWait
  rw [free_eq here, Option.bind_eq_bind, Option.bind_some, free_eq still]
  unfold Ipv4.log
  rw [append_assoc]
  rfl

theorem sendTurn_eq (here : p.heap w.data = some data) (entry : (p.heap w.address).isSome)
    (apart : w.address ≠ w.data) :
    sendTurn mac p w = some (p.settle w [.sendIpFragmentNow w.data mac data, .free w.data, .free w.address]) := by
  have some' : (p.heap w.data).isSome := by rw [here, Option.isSome_some]
  have freed := @se4FreeIpWait_eq (deleteIpWait (p.log [.sendIpFragmentNow w.data mac data]) w) w some' entry apart
  unfold sendTurn se4SendIpFragmentNow
  rw [here, Option.bind_eq_bind, Option.bind_some, freed]
  unfold Ipv4.settle Ipv4.log deleteIpWait
  rw [append_assoc]
  rfl

theorem flushTurn_eq (here : (p.heap w.data).isSome) (entry : (p.heap w.address).isSome)
    (apart : w.address ≠ w.data) : flushTurn p w = some (p.settle w [.free w.data, .free w.address]) := by
  unfold flushTurn
  rw [se4FreeIpWait_eq here entry apart]
  rfl

theorem settle_first {wanted : IpWait → Bool} {later : List IpWait} (owned : p.Owned)
    (first : p.ipWaitList.filter wanted = w :: later) (actions : List Action) :
    (p.settle w actions).Owned ∧ (p.settle w actions).ipWaitList.filter wanted = later ∧
      ((p.settle w actions).ipWaitList.filter fun v => !wanted v) = p.ipWaitList.filter (fun v => !wanted v) ∧
      ∀ v ∈ (p.settle w actions).ipWaitList, v ∈ p.ipWaitList ∧ v.data ≠ w.data := by
  obtain ⟨front, back, is, others, chosen, rest⟩ := filter_eq_cons_iff.mp first
  have erased : (p.settle w actions).ipWaitList = front ++ back := by
    have keys := owned.addresses
    rw [is] at keys
    change p.ipWaitList.eraseP (fun v => v.address = w.address) = front ++ back
    rw [is, eraseP_key keys]
  have fewer : (front ++ back).Sublist p.ipWaitList := by
    rw [is]
    exact (List.Sublist.refl front).append (sublist_cons_self w back)
  have present : w ∈ p.ipWaitList := by
    rw [is]
    exact mem_append_right _ mem_cons_self
  have other : ∀ v ∈ front ++ back, v.data ≠ w.data ∧ v.address ≠ w.address := by
    intro v member
    have buffers := owned.buffers
    have addresses := owned.addresses
    rw [is, map_append, map_cons, nodup_middle, nodup_cons, ← map_append] at buffers
    rw [is, map_append, map_cons, nodup_middle, nodup_cons, ← map_append] at addresses
    constructor
    · intro same
      exact buffers.1 (same ▸ mem_map_of_mem member)
    · intro same
      exact addresses.1 (same ▸ mem_map_of_mem member)
  refine ⟨owned.of_sublist (erased ▸ fewer) ?_, ?_, ?_, ?_⟩
  · intro v member
    rw [erased] at member
    have apart := other v member
    have inside := fewer.subset member
    change update (update p.heap w.data none) w.address none v.data = _ ∧
      update (update p.heap w.data none) w.address none v.address = _
    rw [update_of_ne (owned.apart w present v inside).symm, update_of_ne apart.1,
      update_of_ne apart.2, update_of_ne (owned.apart v inside w present)]
    exact ⟨rfl, rfl⟩
  · rw [erased, filter_append, filter_eq_nil_iff.mpr others, rest, nil_append]
  · rw [erased, is, filter_append, filter_append, filter_cons_of_neg (by rw [chosen]; exact Bool.false_ne_true)]
  · intro v member
    rw [erased] at member
    exact ⟨fewer.subset member, (other v member).1⟩

theorem foldlM_settle {wanted : IpWait → Bool} {turn : Ipv4 → IpWait → Option Ipv4}
    {actions : IpWait → List Action} {tick : UInt64} {held : ℕ → List UInt8}
    (turns : ∀ p w, p.tick = tick → p.heap w.data = some (held w.data) → (p.heap w.address).isSome →
      w.address ≠ w.data → turn p w = some (p.settle w (actions w))) (these : List IpWait) :
    ∀ p : Ipv4, p.Owned → p.tick = tick → (∀ w ∈ p.ipWaitList, p.heap w.data = some (held w.data)) →
      p.ipWaitList.filter wanted = these →
      ∃ heap, these.foldlM turn p = some ({ p with
          ipWaitList := p.ipWaitList.filter fun w => !wanted w, heap := heap }.log (these.flatMap actions)) ∧
        ∀ b, (∀ w ∈ these, b ≠ w.data ∧ b ≠ w.address) → heap b = p.heap b := by
  induction these with
  | nil =>
    intro p owned _ _ none'
    have all : (p.ipWaitList.filter fun w => !wanted w) = p.ipWaitList := by
      rw [filter_eq_nil_iff] at none'
      rw [filter_eq_self]
      intro w member
      rw [Bool.eq_false_iff.mpr (none' w member), Bool.not_false]
    refine ⟨p.heap, ?_, fun b _ => rfl⟩
    rw [all]
    change some p = some { p with trace := p.trace ++ [] }
    rw [append_nil]
  | cons w these ih =>
    intro p owned now contents first
    have present : w ∈ p.ipWaitList := by
      have member : w ∈ p.ipWaitList.filter wanted := by
        rw [first]
        exact mem_cons_self
      exact (mem_filter.mp member).1
    obtain ⟨kept, rest, others, fewer⟩ := settle_first owned first (actions w)
    have same : ∀ v ∈ (p.settle w (actions w)).ipWaitList,
        (p.settle w (actions w)).heap v.data = some (held v.data) := by
      intro v member
      obtain ⟨inside, other⟩ := fewer v member
      change update (update p.heap w.data none) w.address none v.data = _
      rw [update_of_ne (owned.apart w present v inside).symm, update_of_ne other]
      exact contents v inside
    obtain ⟨heap, loops, elsewhere⟩ := ih (p.settle w (actions w)) kept now same rest
    refine ⟨heap, ?_, ?_⟩
    · rw [foldlM_cons, turns p w now (contents w present) (owned.entry w present)
        (owned.apart w present w present), Option.bind_eq_bind, Option.bind_some, loops, others,
        flatMap_cons]
      unfold Ipv4.settle Ipv4.log
      rw [map_append, append_assoc]
    · intro b apart
      have this := apart w mem_cons_self
      rw [elsewhere b fun v member => apart v (mem_cons_of_mem _ member)]
      change update (update p.heap w.data none) w.address none b = p.heap b
      rw [update_of_ne this.2, update_of_ne this.1]

def sendActions (p : Ipv4) (mac : Mac) (w : IpWait) : List Action :=
  [.sendIpFragmentNow w.data mac (p.bytes w.data), .free w.data, .free w.address]

def dropActions (w : IpWait) : List Action := [.free w.data, .free w.address]

theorem se4SendWaitingIpWait_eq (owned : p.Owned) (ip : Addr) (mac : Mac) :
    ∃ heap, se4SendWaitingIpWait p ip mac = some ({ p with
        ipWaitList := p.ipWaitList.filter fun w => !decide (w.destIPLocal = ip), heap := heap }.log
          ((p.ipWaitList.filter fun w : IpWait => w.destIPLocal = ip).flatMap (sendActions p mac))) ∧
      ∀ b, (∀ w ∈ p.ipWaitList.filter (fun v : IpWait => v.destIPLocal = ip), b ≠ w.data ∧ b ≠ w.address) →
        heap b = p.heap b := by
  have turns : ∀ q w, q.tick = p.tick → q.heap w.data = some (p.bytes w.data) →
      (q.heap w.address).isSome → w.address ≠ w.data →
      sendTurn mac q w = some (q.settle w (sendActions p mac w)) := by
    intro q w _ here entry apart
    exact sendTurn_eq here entry apart
  exact foldlM_settle turns _ p owned rfl (fun w waits => owned.heap_data waits) rfl

theorem se4FlushIpWaitList_eq (owned : p.Owned) :
    ∃ heap, se4FlushIpWaitList p = some ({ p with
        ipWaitList := p.ipWaitList.filter fun w => !decide (w.expire ≤ p.tick), heap := heap }.log
          ((p.ipWaitList.filter fun w : IpWait => w.expire ≤ p.tick).flatMap dropActions)) ∧
      ∀ b, (∀ w ∈ p.ipWaitList.filter (fun v : IpWait => v.expire ≤ p.tick), b ≠ w.data ∧ b ≠ w.address) →
        heap b = p.heap b := by
  have turns : ∀ q w, q.tick = p.tick → q.heap w.data = some (p.bytes w.data) →
      (q.heap w.address).isSome → w.address ≠ w.data →
      flushTurn q w = some (q.settle w (dropActions w)) := by
    intro q w _ here entry apart
    have some' : (q.heap w.data).isSome := by rw [here, Option.isSome_some]
    exact flushTurn_eq some' entry apart
  exact foldlM_settle turns _ p owned rfl (fun w waits => owned.heap_data waits) rfl

end DisasVisor.Vpn.Arp
