import DisasVisor.Vpn.ArpSettling

/-!
What one step can do to the packets that wait: none of them is touched, all packets for an address are
sent, all packets that are too old are dropped, or a packet is handed over and goes one of its ways.
-/

namespace DisasVisor.Vpn.Arp

open Function Ip4 List

variable {c : Config} {p p' q : Ipv4} {buf : ℕ} {mac : Mac} {data : List UInt8} {tick : UInt64} {ip : Addr}

section Keys

variable {α : Type} {ipAddress : α → Addr} {a : α} {as : List α}

theorem modifyFirst_keys {is : α → Bool} {change : α → α}
    (same : ∀ a, is a = true → ipAddress (change a) = ipAddress a) :
    (modifyFirst is change as).map ipAddress = as.map ipAddress := by
  induction as with
  | nil => rfl
  | cons a as ih =>
    rw [modifyFirst]
    by_cases found : is a = true
    · rw [if_pos found, map_cons, map_cons, same a found]
    · rw [if_neg found, map_cons, map_cons, ih]

theorem seInsert_perm : (seInsert ipAddress a as).Perm (a :: as) := by
  induction as with
  | nil => exact List.Perm.refl _
  | cons b bs ih =>
    rw [seInsert]
    split
    · exact List.Perm.refl _
    · exact (ih.cons b).trans (List.Perm.swap a b bs)

theorem seInsert_keys (keys : (as.map ipAddress).Nodup) (absent : ipAddress a ∉ as.map ipAddress) :
    ((seInsert ipAddress a as).map ipAddress).Nodup := by
  have perm : ((seInsert ipAddress a as).map ipAddress).Perm ((a :: as).map ipAddress) := seInsert_perm.map ipAddress
  rw [perm.nodup_iff, map_cons, nodup_cons]
  exact ⟨absent, keys⟩

theorem absent_of_find? (none' : (as.find? fun b => ipAddress b = ip) = none) : ip ∉ as.map ipAddress := by
  rw [List.find?_eq_none] at none'
  intro member
  obtain ⟨b, inside, is⟩ := mem_map.mp member
  exact none' b inside (decide_eq_true is)

end Keys

structure Ipv4.Keyed (p : Ipv4) : Prop where
  entries : (p.arpEntryList.map ArpEntry.ipAddress).Nodup
  waits : (p.arpWaitList.map ArpWait.ipAddress).Nodup

theorem se4SearchArpEntryList_keys {o : List ArpEntry} (keys : (o.map ArpEntry.ipAddress).Nodup)
    (ip : Addr) (tick : UInt64) (span : UInt32) (dontUpdate : Bool) :
    ((se4SearchArpEntryList o ip tick span dontUpdate).1.map ArpEntry.ipAddress).Nodup ∧
      ((se4SearchArpEntryList o ip tick span dontUpdate).2 = none →
        ip ∉ (se4SearchArpEntryList o ip tick span dontUpdate).1.map ArpEntry.ipAddress) := by
  have flushed : ((se4FlushArpEntryList o tick).map ArpEntry.ipAddress).Nodup := keys.sublist (filter_sublist.map _)
  unfold se4SearchArpEntryList
  dsimp only
  split
  · rename_i none'
    exact ⟨flushed, fun _ => absent_of_find? none'⟩
  · rename_i r found
    split
    · exact ⟨flushed, fun none' => absurd none' (Option.some_ne_none _)⟩
    · refine ⟨?_, fun none' => absurd none' (Option.some_ne_none _)⟩
      have key : r.ipAddress = ip := of_decide_eq_true (List.find?_some found :)
      rw [modifyFirst_keys]
      · exact flushed
      · intro e is
        rw [of_decide_eq_true is]
        exact key

theorem se4AddArpEntryList_keys {o : List ArpEntry} (keys : (o.map ArpEntry.ipAddress).Nodup)
    (tick : UInt64) (span : UInt32) (ip : Addr) (mac : Mac) :
    ((se4AddArpEntryList o tick span ip mac).map ArpEntry.ipAddress).Nodup := by
  obtain ⟨searched, absent⟩ := se4SearchArpEntryList_keys keys ip tick span false
  unfold se4AddArpEntryList
  split
  · rename_i rest t is
    rw [is] at searched
    split
    · rw [modifyFirst_keys]
      · exact searched
      · exact fun _ _ => rfl
    · exact searched
  · rename_i rest is
    rw [is] at searched absent
    exact seInsert_keys searched (absent rfl)

theorem se4SendArpDoProcess_key (w : ArpWait) : (se4SendArpDoProcess c tick w).1.ipAddress = w.ipAddress := by
  unfold se4SendArpDoProcess
  dsimp only
  split
  · split
    · rfl
    · rfl
  · rfl

theorem se4SendArpRequest_keyed (keyed : p.Keyed) (ip : Addr) : (se4SendArpRequest c p ip).Keyed := by
  refine ⟨keyed.entries, ?_⟩
  unfold se4SendArpRequest
  dsimp only
  change ((modifyFirst _ _ _).map ArpWait.ipAddress).Nodup
  cases found : p.arpWaitList.find? fun w => w.ipAddress = ip with
  | none =>
    rw [modifyFirst_keys]
    · exact seInsert_keys keyed.waits (absent_of_find? found)
    · intro w is
      rw [of_decide_eq_true is]
      exact se4SendArpDoProcess_key _
  | some w =>
    have key : w.ipAddress = ip := of_decide_eq_true (List.find?_some found :)
    rw [modifyFirst_keys]
    · exact keyed.waits
    · intro v is
      rw [of_decide_eq_true is]
      exact (se4SendArpDoProcess_key _).trans key

theorem se4ProcessArpWaitList_keyed (keyed : p.Keyed) : (se4ProcessArpWaitList c p).Keyed := by
  refine ⟨keyed.entries, ?_⟩
  unfold se4ProcessArpWaitList
  dsimp only
  change (((List.filter _ (p.arpWaitList.map _)).map Prod.fst).map ArpWait.ipAddress).Nodup
  have keys : ((p.arpWaitList.map (se4SendArpDoProcess c p.tick)).map fun r => r.1.ipAddress) =
      p.arpWaitList.map ArpWait.ipAddress := by
    rw [map_map]
    exact map_congr_left fun w _ => se4SendArpDoProcess_key w
  have nodup := keyed.waits
  rw [← keys] at nodup
  rw [map_map]
  exact nodup.sublist (filter_sublist.map _)

def IsArp : Action → Prop
  | .sendArp _ _ => True
  | _ => False

theorem se4SendArpDoProcess_arp (w : ArpWait) : ∀ a ∈ (se4SendArpDoProcess c tick w).2.2, IsArp a := by
  unfold se4SendArpDoProcess
  dsimp only
  split
  · split
    · exact fun a member => (not_mem_nil member).elim
    · intro a member
      rw [mem_singleton.mp member]
      exact trivial
  · exact fun a member => (not_mem_nil member).elim

theorem arpAnswers_arp (arp : Header) : ∀ a ∈ arpAnswers c arp, IsArp a := by
  intro a member
  unfold arpAnswers at member
  split at member
  · rw [mem_singleton.mp member]
    exact trivial
  · split at member
    · rw [mem_singleton.mp member]
      exact trivial
    · exact (not_mem_nil member).elim

inductive Change (c : Config) (p : Ipv4) : Event → Ipv4 → Prop
  | quiet {event : Event} {p' : Ipv4} {others : List Action} :
      (∀ data destMac, event ≠ .sendRawIp data destMac) → event ≠ .mainProc →
      (∀ a ∈ others, IsArp a) →
      p'.trace = p.trace ++ others.map (Prod.mk p.tick) → p'.ipWaitList = p.ipWaitList →
      p'.next = p.next → p'.heap = p.heap → Change c p event p'
  | learn {event : Event} {p' : Ipv4} {ip : Addr} {mac : Mac} {others : List Action} :
      (∀ data destMac, event ≠ .sendRawIp data destMac) → event ≠ .mainProc →
      (∀ a ∈ others, IsArp a) →
      p'.trace = p.trace ++ (.known ip mac ::
        ((p.ipWaitList.filter fun w => w.destIPLocal = ip).flatMap (sendActions p mac) ++ others)).map
          (Prod.mk p.tick) →
      (p'.ipWaitList = p.ipWaitList.filter fun w => !decide (w.destIPLocal = ip)) →
      p'.next = p.next →
      (∀ b, (∀ w ∈ p.ipWaitList.filter (fun w : IpWait => w.destIPLocal = ip),
        b ≠ w.data ∧ b ≠ w.address) → p'.heap b = p.heap b) → Change c p event p'
  | expire {p' : Ipv4} {others : List Action} :
      p'.tick = p.tick → (∀ a ∈ others, IsArp a) →
      p'.trace = p.trace ++
        (others ++ (p.ipWaitList.filter fun w => w.expire ≤ p.tick).flatMap dropActions).map
          (Prod.mk p.tick) →
      (p'.ipWaitList = p.ipWaitList.filter fun w => !decide (w.expire ≤ p.tick)) →
      p'.next = p.next →
      (∀ b, (∀ w ∈ p.ipWaitList.filter (fun w : IpWait => w.expire ≤ p.tick),
        b ≠ w.data ∧ b ≠ w.address) → p'.heap b = p.heap b) → Change c p .mainProc p'
  | finish {p' : Ipv4} {data : List UInt8} {destMac : Option Mac} {actions : List Action} :
      (data.length ≤ 20 ∧ actions = [] ∨
        20 < data.length ∧ nextHop c (readHeader data).dstIP = none ∧ actions = [.free p.next] ∨
        20 < data.length ∧ ∃ mac, actions = [.sendIpFragmentNow p.next mac data, .free p.next]) →
      p'.trace = p.trace ++ (.sendRawIp p.next data :: actions).map (Prod.mk p.tick) →
      p'.ipWaitList = p.ipWaitList → p'.next = p.next + 1 →
      (∀ b, b ≠ p.next → p'.heap b = p.heap b) → Change c p (.sendRawIp data destMac) p'
  | queue {p' : Ipv4} {data : List UInt8} {destMac : Option Mac} {hop srcIP : Addr}
      {others : List Action} :
      nextHop c (readHeader data).dstIP = some hop → 20 < data.length → (∀ a ∈ others, IsArp a) →
      p'.trace = p.trace ++ (.sendRawIp p.next data :: .insertIpWait p.next hop :: others).map (Prod.mk p.tick) →
      p'.ipWaitList = p.ipWaitList ++ [⟨p.next + 1, srcIP, hop, waitExpire p.tick, p.next⟩] →
      p'.next = p.next + 2 →
      (∀ b, b ≠ p.next + 1 → p'.heap b = update p.heap p.next (some data) b) →
      (p'.heap (p.next + 1)).isSome → Change c p (.sendRawIp data destMac) p'

theorem sendAndFree_eq (held : p.heap buf = some data) :
    sendAndFree p mac buf = some ({ p with heap := update p.heap buf none }.log
      [.sendIpFragmentNow buf mac data, .free buf]) := by
  have some' : ((p.log [.sendIpFragmentNow buf mac data]).heap buf).isSome := by
    change (p.heap buf).isSome = true
    rw [held, Option.isSome_some]
  unfold sendAndFree se4SendIpFragmentNow
  rw [held, Option.bind_eq_bind, Option.bind_some, free_eq some']
  unfold Ipv4.log
  rw [append_assoc]
  rfl

theorem known_change {event : Event} {others : List Action} (owned : p.Owned) (keyed : p.Keyed)
    (notSend : ∀ data destMac, event ≠ .sendRawIp data destMac) (notMain : event ≠ .mainProc)
    (arp : ∀ a ∈ others, IsArp a) :
    ∃ p', se4MacIpRelationKnown c p ip mac = some p' ∧ Change c p event (p'.log others) ∧ (p'.log others).Keyed := by
  unfold se4MacIpRelationKnown
  by_cases inside : se4IsInSameNetwork c.ipAddress ip c.subnetMask = false
  · rw [if_pos inside]
    exact ⟨p, rfl, .quiet notSend notMain arp rfl rfl rfl rfl, ⟨keyed.entries, keyed.waits⟩⟩
  · rw [if_neg inside]
    let q : Ipv4 := { p with
      arpWaitList := p.arpWaitList.eraseP fun w => w.ipAddress = ip
      arpEntryList := se4AddArpEntryList p.arpEntryList p.tick c.optionV4ArpExpires ip mac }
    have ownedQ : (q.log [.known ip mac]).Owned :=
      ⟨owned.addresses, owned.buffers, owned.apart, owned.data, owned.entry⟩
    obtain ⟨heap, sends, elsewhere⟩ := se4SendWaitingIpWait_eq ownedQ ip mac
    refine ⟨_, sends, ?_, ?_⟩
    · have trace : ((p.trace ++ [(p.tick, Action.known ip mac)]) ++
          ((p.ipWaitList.filter fun w => w.destIPLocal = ip).flatMap (sendActions p mac)).map
            (Prod.mk p.tick)) ++ others.map (Prod.mk p.tick) =
          p.trace ++ (.known ip mac ::
            ((p.ipWaitList.filter fun w => w.destIPLocal = ip).flatMap (sendActions p mac) ++
              others)).map (Prod.mk p.tick) := by
        rw [map_cons, map_append, append_assoc, append_assoc]
        rfl
      exact .learn notSend notMain arp trace rfl rfl elsewhere
    · exact ⟨se4AddArpEntryList_keys keyed.entries _ _ _ _, keyed.waits.sublist ((eraseP_sublist).map _)⟩

theorem sendAndFree_change {destMac : Option Mac} {entries : List ArpEntry} (long : 20 < data.length)
    (entryKeys : (entries.map ArpEntry.ipAddress).Nodup) (keyed : p.Keyed) :
    ∃ p', sendAndFree { (p.malloc data).log [.sendRawIp p.next data] with arpEntryList := entries }
        mac p.next = some p' ∧ Change c p (.sendRawIp data destMac) p' ∧ p'.Keyed := by
  have held : ({ (p.malloc data).log [.sendRawIp p.next data] with
      arpEntryList := entries } : Ipv4).heap p.next = some data := update_self _ _ _
  refine ⟨_, sendAndFree_eq held, .finish (.inr (.inr ⟨long, mac, rfl⟩)) ?_ rfl rfl ?_, ⟨entryKeys, keyed.waits⟩⟩
  · change (p.trace ++ _) ++ _ = _
    rw [append_assoc]
    rfl
  · intro b other
    change update (update p.heap p.next (some data)) p.next none b = p.heap b
    rw [update_of_ne other, update_of_ne other]

theorem se4SendArpRequest_trace (c : Config) (p : Ipv4) (ip : Addr) :
    ∃ others : List Action, (se4SendArpRequest c p ip).trace = p.trace ++ others.map (Prod.mk p.tick) ∧
      (∀ a ∈ others, IsArp a) ∧ (se4SendArpRequest c p ip).ipWaitList = p.ipWaitList ∧
      (se4SendArpRequest c p ip).next = p.next ∧ (se4SendArpRequest c p ip).heap = p.heap := by
  unfold se4SendArpRequest
  exact ⟨_, rfl, se4SendArpDoProcess_arp _, rfl, rfl, rfl⟩

theorem queue_change {destMac : Option Mac} {hop srcIP : Addr} {entries : List ArpEntry}
    (next : nextHop c (readHeader data).dstIP = some hop) (long : 20 < data.length)
    (entryKeys : (entries.map ArpEntry.ipAddress).Nodup) (keyed : p.Keyed) :
    let p' := se4SendArpRequest c (se4InsertIpWait
      { (p.malloc data).log [.sendRawIp p.next data] with arpEntryList := entries } hop srcIP p.next) hop
    Change c p (.sendRawIp data destMac) p' ∧ p'.Keyed := by
  intro p'
  have waiting : (se4InsertIpWait { (p.malloc data).log [.sendRawIp p.next data] with
      arpEntryList := entries } hop srcIP p.next).Keyed := ⟨entryKeys, keyed.waits⟩
  obtain ⟨others, trace, arp, list, last, heap⟩ := se4SendArpRequest_trace c (se4InsertIpWait
    { (p.malloc data).log [.sendRawIp p.next data] with arpEntryList := entries } hop srcIP p.next) hop
  refine ⟨.queue next long arp ?_ list last ?_ ?_, se4SendArpRequest_keyed waiting hop⟩
  · rw [trace]
    change ((p.trace ++ _) ++ _) ++ _ = _
    rw [append_assoc, append_assoc]
    rfl
  · intro b other
    rw [heap]
    exact update_of_ne other _ _
  · rw [heap]
    change (update (update p.heap p.next (some data)) (p.next + 1) (some [])
      (p.next + 1)).isSome = true
    rw [update_self, Option.isSome_some]

theorem se4SendRawIp_change (keyed : p.Keyed) (data : List UInt8) (destMac : Option Mac) :
    ∃ p', se4SendRawIp c (p.malloc data) p.next destMac = some p' ∧
      Change c p (.sendRawIp data destMac) p' ∧ p'.Keyed := by
  have held : (p.malloc data).heap p.next = some data := update_self _ _ _
  have same : ∀ b, b ≠ p.next → (p.malloc data).heap b = p.heap b := fun b other => update_of_ne other _ _
  unfold se4SendRawIp
  rw [held]
  dsimp only
  by_cases short : data.length ≤ 20
  · rw [if_pos short]
    exact ⟨_, rfl, .finish (.inl ⟨short, rfl⟩) rfl rfl rfl same, ⟨keyed.entries, keyed.waits⟩⟩
  · rw [if_neg short]
    have long := Nat.lt_of_not_le short
    cases destMac with
    | some mac => exact sendAndFree_change long keyed.entries keyed
    | none =>
      dsimp only
      by_cases broadcast : se4IsBroadcastAddress (readHeader data).dstIP ∨
          se4GetBroadcastAddress c.ipAddress c.subnetMask = (readHeader data).dstIP
      · rw [if_pos broadcast]
        exact sendAndFree_change long keyed.entries keyed
      · rw [if_neg broadcast]
        cases next : nextHop c (readHeader data).dstIP with
        | none =>
          dsimp only
          have allocated : (((p.malloc data).log [.sendRawIp p.next data]).heap p.next).isSome := by
            change ((p.malloc data).heap p.next).isSome = true
            rw [held, Option.isSome_some]
          refine ⟨_, free_eq allocated, .finish (.inr (.inl ⟨long, next, rfl⟩)) ?_ rfl rfl ?_,
            ⟨keyed.entries, keyed.waits⟩⟩
          · change (p.trace ++ _) ++ _ = _
            rw [append_assoc]
            rfl
          · intro b other
            change update (p.malloc data).heap p.next none b = p.heap b
            rw [update_of_ne other, same b other]
        | some hop =>
          dsimp only
          obtain ⟨searched, _⟩ := se4SearchArpEntryList_keys keyed.entries hop p.tick
            c.optionV4ArpExpires c.optionV4ArpDontUpdateExpires
          split
          · exact sendAndFree_change long searched keyed
          · exact ⟨_, rfl, queue_change next long searched keyed⟩

theorem step_change (owned : p.Owned) (keyed : p.Keyed) (event : Event) :
    ∃ p', step c p event = some p' ∧ Change c p event p' ∧ p'.Keyed := by
  have quiet {event : Event} (notSend : ∀ data destMac, event ≠ .sendRawIp data destMac)
      (notMain : event ≠ .mainProc) : Change c p event p :=
    .quiet notSend notMain (fun a member => (not_mem_nil member).elim) (append_nil _).symm rfl rfl rfl
  have knows {event : Event} (ip : Addr) (mac : Mac)
      (notSend : ∀ data destMac, event ≠ .sendRawIp data destMac) (notMain : event ≠ .mainProc) :
      ∃ p', se4MacIpRelationKnown c p ip mac = some p' ∧ Change c p event p' ∧ p'.Keyed := by
    obtain ⟨p', knows, change, keyed'⟩ := known_change owned keyed notSend notMain
      (fun a member => (not_mem_nil member).elim)
    have same : p'.log [] = p' := by
      unfold Ipv4.log
      rw [map_nil, append_nil]
    rw [same] at change keyed'
    exact ⟨p', knows, change, keyed'⟩
  cases event with
  | clock tick =>
    exact ⟨{ p with tick := tick }, rfl, .quiet (fun _ _ => Event.noConfusion) Event.noConfusion
      (fun a member => (not_mem_nil member).elim) (append_nil _).symm rfl rfl rfl,
      ⟨keyed.entries, keyed.waits⟩⟩
  | sendRawIp data destMac => exact se4SendRawIp_change keyed data destMac
  | recvArp source arp =>
    change ∃ p', (if source = c.myMacAddress then some p else se4RecvArp c p source arp) = some p' ∧ _
    have notSend : ∀ data destMac, Event.recvArp source arp ≠ .sendRawIp data destMac := fun _ _ => Event.noConfusion
    have notMain : Event.recvArp source arp ≠ .mainProc := Event.noConfusion
    unfold se4RecvArp
    split
    · exact ⟨p, rfl, quiet notSend notMain, keyed⟩
    · split
      · split
        · obtain ⟨p', knows, change, keyed'⟩ := known_change owned keyed notSend notMain
            (arpAnswers_arp arp)
          rw [knows]
          exact ⟨_, rfl, change, keyed'⟩
        · split
          · exact knows arp.srcIP arp.srcAddress notSend notMain
          · exact ⟨p, rfl, quiet notSend notMain, keyed⟩
      · exact ⟨p, rfl, quiet notSend notMain, keyed⟩
  | recvIp source srcIP =>
    change ∃ p', (if source = c.myMacAddress then some p
      else se4MacIpRelationKnown c p srcIP source) = some p' ∧ _
    split
    · exact ⟨p, rfl, quiet (fun _ _ => Event.noConfusion) Event.noConfusion, keyed⟩
    · exact knows srcIP source (fun _ _ => Event.noConfusion) Event.noConfusion
  | mainProc =>
    have still : (se4ProcessArpWaitList c p).Owned :=
      ⟨owned.addresses, owned.buffers, owned.apart, owned.data, owned.entry⟩
    obtain ⟨heap, flushes, elsewhere⟩ := se4FlushIpWaitList_eq still
    have keyed' : (se4ProcessArpWaitList c p).Keyed := se4ProcessArpWaitList_keyed keyed
    refine ⟨_, flushes, ?_, ⟨keyed'.entries, keyed'.waits⟩⟩
    have trace : (se4ProcessArpWaitList c p).trace ++
        ((p.ipWaitList.filter fun w => w.expire ≤ p.tick).flatMap dropActions).map (Prod.mk p.tick) =
        p.trace ++ (((p.arpWaitList.map (se4SendArpDoProcess c p.tick)).flatMap fun r => r.2.2) ++
          (p.ipWaitList.filter fun w => w.expire ≤ p.tick).flatMap dropActions).map
            (Prod.mk p.tick) := by
      rw [map_append, ← append_assoc]
      rfl
    refine .expire rfl ?_ trace rfl rfl elsewhere
    intro a member
    obtain ⟨r, processed, inside⟩ := mem_flatMap.mp member
    obtain ⟨w, _, rfl⟩ := mem_map.mp processed
    exact se4SendArpDoProcess_arp w a inside

end DisasVisor.Vpn.Arp
