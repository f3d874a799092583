import DisasVisor.Vpn.ArpSweeps

/-!
Runs of the address resolution: no run uses a released block, there is one item for each address, packets
for an address are sent in the order in which they were queued, and every packet that `Se4SendRawIp` does
not find too short has one fate.
-/

namespace DisasVisor.Vpn.Arp

open Ip4 List
open Option (some_ne_none)

variable {c : Config} {p p' : Ipv4} {event : Event} {wanted : IpWait → Bool} {new others : List Action}
  {hop : Addr} {b : ℕ} {data : List UInt8}

def Action.sent : Action → Option ℕ
  | .sendIpFragmentNow buf _ _ => some buf
  | _ => none

def Action.queued (hop : Addr) : Action → Option ℕ
  | .insertIpWait buf destIpLocal => if destIpLocal = hop then some buf else none
  | _ => none

def Action.called : Action → Option (List UInt8)
  | .sendRawIp _ data => some data
  | _ => none

def sentBuffers (trace : List (UInt64 × Action)) : List ℕ := trace.filterMap fun e => e.2.sent

def queuedFor (hop : Addr) (trace : List (UInt64 × Action)) : List ℕ := trace.filterMap fun e => e.2.queued hop

def calls (trace : List (UInt64 × Action)) : List (List UInt8) := trace.filterMap fun e => e.2.called

def Event.packet : Event → Option (List UInt8)
  | .sendRawIp data _ => some data
  | _ => none

def waitingFor (hop : Addr) (p : Ipv4) : List ℕ := (p.ipWaitList.filter fun w => w.destIPLocal = hop).map IpWait.data

structure Ordered (p : Ipv4) : Prop where
  queue : ∀ hop, ((sentBuffers p.trace).filter (fun b => b ∈ queuedFor hop p.trace) ++
    waitingFor hop p).Sublist (queuedFor hop p.trace)
  own : ∀ w ∈ p.ipWaitList, ∀ hop, w.data ∈ queuedFor hop p.trace → w.destIPLocal = hop

section Parts

variable {first second trace : List (UInt64 × Action)} {tick : UInt64} {mac : Mac}

theorem sentBuffers_append : sentBuffers (first ++ second) = sentBuffers first ++ sentBuffers second := filterMap_append

theorem queuedFor_append : queuedFor hop (first ++ second) = queuedFor hop first ++ queuedFor hop second :=
  filterMap_append

theorem calls_append : calls (first ++ second) = calls first ++ calls second := filterMap_append

theorem arp_parts (arp : ∀ a ∈ others, IsArp a) (hop : Addr) (tick : UInt64) :
    sentBuffers (others.map (Prod.mk tick)) = [] ∧ queuedFor hop (others.map (Prod.mk tick)) = [] ∧
      calls (others.map (Prod.mk tick)) = [] := by
  induction others with
  | nil => exact ⟨rfl, rfl, rfl⟩
  | cons a others ih =>
    have later := ih fun a member => arp a (mem_cons_of_mem _ member)
    have first := arp a mem_cons_self
    cases a with
    | sendArp mac header => exact later
    | sendRawIp buf data => exact first.elim
    | insertIpWait buf hop => exact first.elim
    | sendIpFragmentNow buf mac data => exact first.elim
    | known ip mac => exact first.elim
    | free block => exact first.elim

theorem send_parts (p : Ipv4) (mac : Mac) (hop : Addr) (tick : UInt64) (these : List IpWait) :
    sentBuffers ((these.flatMap (sendActions p mac)).map (Prod.mk tick)) = these.map IpWait.data ∧
      queuedFor hop ((these.flatMap (sendActions p mac)).map (Prod.mk tick)) = [] ∧
      calls ((these.flatMap (sendActions p mac)).map (Prod.mk tick)) = [] := by
  induction these with
  | nil => exact ⟨rfl, rfl, rfl⟩
  | cons w these ih => exact ⟨congrArg (w.data :: ·) ih.1, ih.2.1, ih.2.2⟩

theorem drop_parts (hop : Addr) (tick : UInt64) (these : List IpWait) :
    sentBuffers ((these.flatMap dropActions).map (Prod.mk tick)) = [] ∧
      queuedFor hop ((these.flatMap dropActions).map (Prod.mk tick)) = [] ∧
      calls ((these.flatMap dropActions).map (Prod.mk tick)) = [] := by
  induction these with
  | nil => exact ⟨rfl, rfl, rfl⟩
  | cons w these ih => exact ih

theorem about_queued {a : Action} (is : a.queued hop = some b) : about b a = true := by
  cases a with
  | insertIpWait buf dest =>
    change (if dest = hop then some buf else none) = some b at is
    split at is
    · exact decide_eq_true (Option.some.inj is)
    · cases is
  | sendArp mac header => cases is
  | sendRawIp buf data => cases is
  | sendIpFragmentNow buf mac data => cases is
  | known ip mac => cases is
  | free block => cases is

theorem about_sent {a : Action} (is : a.sent = some b) : about b a = true := by
  cases a with
  | sendIpFragmentNow buf mac data => exact decide_eq_true (Option.some.inj is)
  | sendArp mac header => cases is
  | sendRawIp buf data => cases is
  | insertIpWait buf dest => cases is
  | known ip mac => cases is
  | free block => cases is

theorem Sound.queued_lt (sound : Sound p) (member : b ∈ queuedFor hop p.trace) : b < p.next := by
  obtain ⟨e, inside, is⟩ := mem_filterMap.mp member
  exact sound.traced e inside b (about_queued is)

theorem Sound.sent_lt (sound : Sound p) (member : b ∈ sentBuffers p.trace) : b < p.next := by
  obtain ⟨e, inside, is⟩ := mem_filterMap.mp member
  exact sound.traced e inside b (about_sent is)

end Parts

theorem Sweep.ordered (sweep : Sweep p p' wanted new) (ordered : Ordered p)
    (parts : ∀ hop, sentBuffers (new.map (Prod.mk p.tick)) = [] ∧
      queuedFor hop (new.map (Prod.mk p.tick)) = []) : Ordered p' := by
  have queued : ∀ hop, queuedFor hop p'.trace = queuedFor hop p.trace := by
    intro hop
    rw [sweep.trace, queuedFor_append, (parts hop).2, append_nil]
  constructor
  · intro hop
    have sent : sentBuffers p'.trace = sentBuffers p.trace := by
      rw [sweep.trace, sentBuffers_append, (parts hop).1, append_nil]
    rw [sent, queued]
    exact ((List.Sublist.refl _).append ((sweep.subset.filter _).map _)).trans (ordered.queue hop)
  · intro w waits hop member
    rw [queued] at member
    exact ordered.own w (sweep.subset.subset waits) hop member

theorem Ordered.waiting_queued (ordered : Ordered p) (member : b ∈ waitingFor hop p) : b ∈ queuedFor hop p.trace :=
  (ordered.queue hop).subset (mem_append_right _ member)

theorem learn_ordered {ip : Addr} {mac : Mac} (ordered : Ordered p) (arp : ∀ a ∈ others, IsArp a)
    (sweep : Sweep p p' (fun w => w.destIPLocal = ip) (.known ip mac ::
      ((p.ipWaitList.filter fun w => w.destIPLocal = ip).flatMap (sendActions p mac) ++ others))) : Ordered p' := by
  have parts : ∀ hop, sentBuffers p'.trace = sentBuffers p.trace ++ waitingFor ip p ∧
      queuedFor hop p'.trace = queuedFor hop p.trace := by
    intro hop
    have sends := send_parts p mac hop p.tick (p.ipWaitList.filter fun w => w.destIPLocal = ip)
    have none' := arp_parts arp hop p.tick
    rw [sweep.trace, map_cons, map_append, ← singleton_append, sentBuffers_append,
      sentBuffers_append, sentBuffers_append, queuedFor_append, queuedFor_append, queuedFor_append,
      sends.1, sends.2.1, none'.1, none'.2.1, append_nil, append_nil]
    exact ⟨rfl, append_nil _⟩
  constructor
  · intro hop
    rw [(parts hop).1, (parts hop).2, filter_append]
    by_cases same : hop = ip
    · subst same
      have all : (waitingFor hop p).filter (fun b => b ∈ queuedFor hop p.trace) = waitingFor hop p :=
        filter_eq_self.mpr fun b member => decide_eq_true (ordered.waiting_queued member)
      have left : waitingFor hop p' = [] := by
        unfold waitingFor
        rw [sweep.list, filter_filter, map_eq_nil_iff, filter_eq_nil_iff]
        intro w _ both
        rw [Bool.and_eq_true, Bool.not_eq_true'] at both
        exact Bool.false_ne_true (both.2.symm.trans both.1)
      rw [all, left, append_nil]
      exact ordered.queue hop
    · have none' : (waitingFor ip p).filter (fun b => b ∈ queuedFor hop p.trace) = [] := by
        rw [filter_eq_nil_iff]
        intro b member queued
        obtain ⟨w, chosen, rfl⟩ := mem_map.mp member
        obtain ⟨waits, is⟩ := mem_filter.mp chosen
        have own := ordered.own w waits hop (of_decide_eq_true queued)
        exact same (own.symm.trans (of_decide_eq_true is))
      have left : (waitingFor hop p').Sublist (waitingFor hop p) := (sweep.subset.filter _).map _
      rw [none', append_nil]
      exact ((List.Sublist.refl _).append left).trans (ordered.queue hop)
  · intro w waits hop member
    rw [(parts hop).2] at member
    exact ordered.own w (sweep.subset.subset waits) hop member

theorem change_ordered (change : Change c p event p') (sound : Sound p) (ordered : Ordered p) : Ordered p' := by
  cases change with
  | quiet _ _ arp trace list next heap =>
    refine (quiet_sweep arp trace list next heap).ordered ordered ?_
    exact fun hop => ⟨(arp_parts arp hop p.tick).1, (arp_parts arp hop p.tick).2.1⟩
  | learn _ _ arp trace list next heap => exact learn_ordered ordered arp (learn_sweep arp trace list next heap)
  | expire _ arp trace list next heap =>
    refine (expire_sweep arp trace list next heap).ordered ordered ?_
    intro hop
    have none' := arp_parts arp hop p.tick
    have drops := drop_parts hop p.tick (p.ipWaitList.filter fun w => w.expire ≤ p.tick)
    rw [map_append, sentBuffers_append, queuedFor_append, none'.1, none'.2.1, drops.1, drops.2.1]
    exact ⟨rfl, rfl⟩
  | @finish _ data _ actions ways trace list next heap =>
    have parts : ∀ hop, queuedFor hop p'.trace = queuedFor hop p.trace ∧
        (sentBuffers p'.trace = sentBuffers p.trace ∨
          sentBuffers p'.trace = sentBuffers p.trace ++ [p.next]) := by
      intro hop
      rw [trace, queuedFor_append, sentBuffers_append]
      rcases ways with ⟨_, rfl⟩ | ⟨_, _, rfl⟩ | ⟨_, mac, rfl⟩
      · exact ⟨append_nil _, .inl (append_nil _)⟩
      · exact ⟨append_nil _, .inl (append_nil _)⟩
      · exact ⟨append_nil _, .inr rfl⟩
    constructor
    · intro hop
      have same : (sentBuffers p'.trace).filter (fun b => b ∈ queuedFor hop p.trace) =
          (sentBuffers p.trace).filter fun b => b ∈ queuedFor hop p.trace := by
        rcases (parts hop).2 with is | is
        · rw [is]
        · rw [is, filter_append, filter_cons_of_neg, filter_nil, append_nil]
          intro member
          exact Nat.lt_irrefl _ (sound.queued_lt (of_decide_eq_true member))
      unfold waitingFor
      rw [(parts hop).1, same, list]
      exact ordered.queue hop
    · intro w waits hop member
      rw [(parts hop).1] at member
      rw [list] at waits
      exact ordered.own w waits hop member
  | @queue _ data _ dest srcIP others next _ arp trace list _ heap entry =>
    have parts : ∀ hop, queuedFor hop p'.trace =
        queuedFor hop p.trace ++ (if dest = hop then [p.next] else []) ∧
          sentBuffers p'.trace = sentBuffers p.trace := by
      intro hop
      have none' := arp_parts arp hop p.tick
      have front : queuedFor hop ([.sendRawIp p.next data, .insertIpWait p.next dest].map
          (Prod.mk p.tick)) = if dest = hop then [p.next] else [] := by
        by_cases same : dest = hop
        · simp [queuedFor, Action.queued, same]
        · simp [queuedFor, Action.queued, same]
      have split : (.sendRawIp p.next data :: .insertIpWait p.next dest :: others).map
          (Prod.mk p.tick) = [.sendRawIp p.next data, .insertIpWait p.next dest].map (Prod.mk p.tick) ++
            others.map (Prod.mk p.tick) := rfl
      rw [trace, split, queuedFor_append, queuedFor_append, sentBuffers_append, sentBuffers_append,
        none'.1, none'.2.1, front, append_nil]
      exact ⟨rfl, append_nil _⟩
    have fresh : ∀ hop, ∀ b ∈ sentBuffers p.trace, decide (b ∈ queuedFor hop p'.trace) =
        decide (b ∈ queuedFor hop p.trace) := by
      intro hop b member
      have older := sound.sent_lt member
      rw [(parts hop).1, decide_eq_decide, mem_append]
      constructor
      · rintro (before | last)
        · exact before
        · split at last
          · have := mem_singleton.mp last
            omega
          · exact (not_mem_nil last).elim
      · exact .inl
    constructor
    · intro hop
      have waits : waitingFor hop p' = waitingFor hop p ++ if dest = hop then [p.next] else [] := by
        unfold waitingFor
        rw [list, filter_append, map_append]
        by_cases same : dest = hop
        · simp [same]
        · simp [same]
      rw [(parts hop).2, filter_congr (fresh hop), waits, ← append_assoc, (parts hop).1]
      exact (ordered.queue hop).append (List.Sublist.refl _)
    · intro w waits hop member
      rw [(parts hop).1, mem_append] at member
      rw [list, mem_append, mem_singleton] at waits
      rcases waits with before | rfl
      · rcases member with inside | last
        · exact ordered.own w before hop inside
        · have below := sound.data_lt before
          split at last
          · have := mem_singleton.mp last
            omega
          · exact (not_mem_nil last).elim
      · rcases member with inside | last
        · exact absurd (sound.queued_lt inside) (Nat.lt_irrefl _)
        · split at last
          · assumption
          · exact (not_mem_nil last).elim

theorem change_calls (change : Change c p event p') : calls p'.trace = calls p.trace ++ event.packet.toList := by
  cases change with
  | @quiet _ _ others notSend _ arp trace list next heap =>
    rw [trace, calls_append, (arp_parts arp (fun _ => 0) p.tick).2.2]
    cases event with
    | sendRawIp data destMac => exact absurd rfl (notSend data destMac)
    | clock tick => rfl
    | recvArp source arp => rfl
    | recvIp source srcIP => rfl
    | mainProc => rfl
  | @learn _ _ ip mac others notSend _ arp trace list next heap =>
    have sends := send_parts p mac (fun _ => 0) p.tick (p.ipWaitList.filter fun w => w.destIPLocal = ip)
    rw [trace, calls_append, map_cons, map_append, ← singleton_append, calls_append,
      calls_append, (arp_parts arp (fun _ => 0) p.tick).2.2, sends.2.2]
    cases event with
    | sendRawIp data destMac => exact absurd rfl (notSend data destMac)
    | clock tick => rfl
    | recvArp source arp => rfl
    | recvIp source srcIP => rfl
    | mainProc => rfl
  | expire _ arp trace list next heap =>
    have drops := drop_parts (fun _ => 0) p.tick (p.ipWaitList.filter fun w => w.expire ≤ p.tick)
    rw [trace, calls_append, map_append, calls_append, (arp_parts arp (fun _ => 0) p.tick).2.2, drops.2.2]
    rfl
  | finish ways trace list next heap =>
    rw [trace, calls_append]
    rcases ways with ⟨_, rfl⟩ | ⟨_, _, rfl⟩ | ⟨_, mac, rfl⟩
    · rfl
    · rfl
    · rfl
  | @queue _ data _ dest srcIP others next _ arp trace list _ heap entry =>
    have split : (.sendRawIp p.next data :: .insertIpWait p.next dest :: others).map
        (Prod.mk p.tick) = [.sendRawIp p.next data, .insertIpWait p.next dest].map (Prod.mk p.tick) ++
          others.map (Prod.mk p.tick) := rfl
    rw [trace, calls_append, split, calls_append, (arp_parts arp (fun _ => 0) p.tick).2.2]
    rfl

structure Inv (c : Config) (p : Ipv4) : Prop where
  sound : Sound p
  keyed : p.Keyed
  told : Told c p
  ordered : Ordered p

theorem se4Init_inv : Inv c se4Init where
  sound := ⟨⟨nodup_nil, nodup_nil, fun _ member => (not_mem_nil member).elim,
    fun _ member => (not_mem_nil member).elim, fun _ member => (not_mem_nil member).elim⟩,
    fun _ _ => rfl, fun _ member => (not_mem_nil member).elim,
    fun _ member => (not_mem_nil member).elim⟩
  keyed := ⟨nodup_nil, nodup_nil⟩
  told := fun before t buf data after trace =>
    absurd trace.symm (append_ne_nil_of_right_ne_nil _ (cons_ne_nil _ _))
  ordered := ⟨fun hop => List.Sublist.refl _, fun w member => (not_mem_nil member).elim⟩

theorem step_inv (inv : Inv c p) (event : Event) : ∃ p', step c p event = some p' ∧ Change c p event p' ∧ Inv c p' := by
  obtain ⟨p', steps, change, keyed⟩ := step_change inv.sound.owned inv.keyed event
  exact ⟨p', steps, change, change_sound change inv.sound, keyed, change_told change inv.sound inv.told,
    change_ordered change inv.sound inv.ordered⟩

theorem run_inv (events : List Event) : ∀ p, Inv c p →
    ∃ p', run c p events = some p' ∧ Inv c p' ∧
      calls p'.trace = calls p.trace ++ events.filterMap Event.packet := by
  induction events with
  | nil => exact fun p inv => ⟨p, rfl, inv, (append_nil _).symm⟩
  | cons event events ih =>
    intro p inv
    obtain ⟨middle, steps, change, inv'⟩ := step_inv inv event
    obtain ⟨p', runs, last, called⟩ := ih middle inv'
    refine ⟨p', ?_, last, ?_⟩
    · rw [run, steps]
      exact runs
    · rw [called, change_calls change, append_assoc]
      cases event with
      | clock tick => rfl
      | sendRawIp data destMac => rfl
      | recvArp source arp => rfl
      | recvIp source srcIP => rfl
      | mainProc => rfl

theorem run_append (front back : List Event) : ∀ p,
    run c p (front ++ back) = (run c p front).bind fun middle => run c middle back := by
  induction front with
  | nil => exact fun p => rfl
  | cons event front ih =>
    intro p
    rw [cons_append, run, run]
    cases step c p event with
    | none => rfl
    | some middle => exact ih middle

theorem mainProc_young (change : Change c p .mainProc p') : ∀ w ∈ p'.ipWaitList, p'.tick < w.expire := by
  cases change with
  | quiet _ notMain => exact absurd rfl notMain
  | learn _ notMain => exact absurd rfl notMain
  | expire now arp trace list next heap =>
    intro w waits
    rw [list, mem_filter, Bool.not_eq_true', decide_eq_false_iff_not] at waits
    rw [now]
    exact UInt64.not_le.mp waits.2

theorem Past.fate_iff {history : List (UInt64 × Action)} {buf : ℕ} (past : Past c p buf data history) :
    Fate c p buf data history ↔ 20 < data.length := by
  rcases past with ⟨long, fate⟩ | ⟨short, _, quiet⟩
  · exact ⟨fun _ => long, fun _ => fate⟩
  · refine ⟨fun fate => ?_, fun long => absurd long (Nat.not_lt_of_le short)⟩
    exfalso
    cases fate with
    | noRoute => exact quiet _ mem_cons_self
    | direct => exact quiet _ mem_cons_self
    | waiting => exact quiet _ mem_cons_self
    | sent => exact quiet _ mem_cons_self
    | discarded => exact quiet _ mem_cons_self

/-- Every run uses only blocks that are allocated, keeps one item for each address in the ARP cache and
among the requests, sends packets for an address in the order of the queue, and leaves no packet that is too
old after `Se4MainProc`. All packets have one of the fates if and only if none of them is too short. -/
theorem se4_packets (c : Config) (events : List Event) :
    ∃ p, run c se4Init events = some p ∧ p.Keyed ∧
      calls p.trace = events.filterMap Event.packet ∧
      (∀ hop, ((sentBuffers p.trace).filter fun b => b ∈ queuedFor hop p.trace).Sublist (queuedFor hop p.trace)) ∧
      (∀ front, events = front ++ [.mainProc] → ∀ w ∈ p.ipWaitList, p.tick < w.expire) ∧
      ((∀ before t buf data after, p.trace = before ++ (t, .sendRawIp buf data) :: after →
          (∀ e ∈ before, about buf e.2 = false) ∧
            Fate c p buf data (after.filter (concerns buf (nextHop c (readHeader data).dstIP)))) ↔
        ∀ data ∈ events.filterMap Event.packet, 20 < data.length) := by
  obtain ⟨p, runs, inv, called⟩ := run_inv events se4Init se4Init_inv (c := c)
  have called : calls p.trace = events.filterMap Event.packet := called
  refine ⟨p, runs, inv.keyed, called, ?_, ?_, ?_⟩
  · intro hop
    exact (sublist_append_left _ _).trans (inv.ordered.queue hop)
  · rintro front rfl
    obtain ⟨middle, before, invMiddle, _⟩ := run_inv front se4Init se4Init_inv (c := c)
    obtain ⟨p', steps, change, _⟩ := step_inv invMiddle .mainProc
    have same : some p' = some p := by
      rw [← runs, run_append, before, Option.bind_some, run, steps]
      rfl
    rw [← Option.some.inj same]
    exact mainProc_young change
  · rw [← called]
    constructor
    · intro fates data member
      obtain ⟨⟨t, a⟩, inside, is⟩ := mem_filterMap.mp member
      cases a with
      | sendRawIp buf bytes =>
        obtain ⟨before, after, split⟩ := append_of_mem inside
        rw [← Option.some.inj is]
        exact (inv.told before t buf bytes after split).2.fate_iff.mp (fates before t buf bytes after split).2
      | sendArp mac header => exact absurd is (some_ne_none data).symm
      | insertIpWait buf dest => exact absurd is (some_ne_none data).symm
      | sendIpFragmentNow buf mac data => exact absurd is (some_ne_none _).symm
      | known ip mac => exact absurd is (some_ne_none data).symm
      | free block => exact absurd is (some_ne_none data).symm
    · intro long before t buf data after split
      obtain ⟨first, past⟩ := inv.told before t buf data after split
      refine ⟨first, past.fate_iff.mpr (long data ?_)⟩
      refine mem_filterMap.mpr ⟨(t, .sendRawIp buf data), ?_, rfl⟩
      rw [split]
      exact mem_append_right _ mem_cons_self

/-- A packet of 20 bytes is dropped and its buffer is never released. -/
theorem short_packet_leaks :
    ∃ p, run ⟨fun _ => 10, fun _ => 255, fun _ => 0, false, false, fun _ => 0, fun _ => 2, 60, false⟩
        se4Init [.sendRawIp (List.replicate 20 0) none] = some p ∧
      ¬ ∀ before t buf data after, p.trace = before ++ (t, .sendRawIp buf data) :: after →
        (∀ e ∈ before, about buf e.2 = false) ∧
          Fate ⟨fun _ => 10, fun _ => 255, fun _ => 0, false, false, fun _ => 0, fun _ => 2, 60, false⟩ p buf
            data (after.filter (concerns buf (nextHop ⟨fun _ => 10, fun _ => 255, fun _ => 0, false, false,
              fun _ => 0, fun _ => 2, 60, false⟩ (readHeader data).dstIP))) := by
  refine ⟨_, rfl, ?_⟩
  intro fates
  have fate := (fates [] 0 0 (List.replicate 20 0) [] rfl).2
  cases fate

end DisasVisor.Vpn.Arp
