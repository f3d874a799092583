import DisasVisor.Vpn.ArpSteps

/-!
The blocks of the packets that wait: a step either takes packets from the list, and its actions are with
their blocks, or it hands over one packet, and its actions are with new blocks.
-/

namespace DisasVisor.Vpn.Arp

open Ip4 List

variable {c : Config} {p p' : Ipv4} {buf : ℕ} {mac : Mac} {event : Event} {wanted : IpWait → Bool}
  {new others : List Action} {w : IpWait}

def about (buf : ℕ) : Action → Bool
  | .sendRawIp b _ => b = buf
  | .insertIpWait b _ => b = buf
  | .sendIpFragmentNow b _ _ => b = buf
  | .free b => b = buf
  | _ => false

/-- New blocks are new to the memory and to the trace, and the trace never names the block of an entry that
waits. -/
structure Sound (p : Ipv4) : Prop where
  owned : p.Owned
  fresh : ∀ b, p.next ≤ b → p.heap b = none
  traced : ∀ e ∈ p.trace, ∀ b, about b e.2 = true → b < p.next
  entries : ∀ w ∈ p.ipWaitList, ∀ e ∈ p.trace, about w.address e.2 = false

theorem Sound.data_lt (sound : Sound p) (waits : w ∈ p.ipWaitList) : w.data < p.next := by
  by_contra beyond
  have held := sound.owned.data w waits
  rw [sound.fresh w.data (Nat.le_of_not_lt beyond)] at held
  exact Bool.false_ne_true held

theorem Sound.address_lt (sound : Sound p) (waits : w ∈ p.ipWaitList) : w.address < p.next := by
  by_contra beyond
  have held := sound.owned.entry w waits
  rw [sound.fresh w.address (Nat.le_of_not_lt beyond)] at held
  exact Bool.false_ne_true held

theorem about_arp {a : Action} (arp : IsArp a) : about buf a = false := by
  cases a with
  | sendArp destMac header => rfl
  | sendRawIp buf data => exact arp.elim
  | insertIpWait buf hop => exact arp.elim
  | sendIpFragmentNow buf mac data => exact arp.elim
  | known ip mac => exact arp.elim
  | free block => exact arp.elim

structure Sweep (p p' : Ipv4) (wanted : IpWait → Bool) (new : List Action) : Prop where
  trace : p'.trace = p.trace ++ new.map (Prod.mk p.tick)
  list : p'.ipWaitList = p.ipWaitList.filter fun w => !wanted w
  next : p'.next = p.next
  heap : ∀ b, (∀ w ∈ p.ipWaitList.filter wanted, b ≠ w.data ∧ b ≠ w.address) → p'.heap b = p.heap b
  named : ∀ a ∈ new, ∀ b, about b a = true → ∃ w ∈ p.ipWaitList.filter wanted, b = w.data ∨ b = w.address
  calls : ∀ a ∈ new, ∀ b bytes, a ≠ .sendRawIp b bytes

section

variable (sweep : Sweep p p' wanted new)
include sweep

theorem Sweep.subset : p'.ipWaitList.Sublist p.ipWaitList := by
  rw [sweep.list]
  exact filter_sublist

theorem Sweep.apart (owned : p.Owned) {v : IpWait} (stays : v ∈ p'.ipWaitList) :
    ∀ w ∈ p.ipWaitList.filter wanted, (v.data ≠ w.data ∧ v.data ≠ w.address) ∧
      (v.address ≠ w.data ∧ v.address ≠ w.address) := by
  intro w taken
  rw [sweep.list] at stays
  obtain ⟨inside, kept⟩ := mem_filter.mp stays
  obtain ⟨inside', chosen⟩ := mem_filter.mp taken
  have other : v ≠ w := by
    rintro rfl
    rw [chosen] at kept
    exact Bool.false_ne_true kept
  refine ⟨⟨?_, (owned.apart w inside' v inside).symm⟩, owned.apart v inside w inside', ?_⟩
  · exact fun same => other (inj_on_of_nodup_map owned.buffers inside inside' same)
  · exact fun same => other (inj_on_of_nodup_map owned.addresses inside inside' same)

theorem Sweep.sound (sound : Sound p) : Sound p' where
  owned := sound.owned.of_sublist sweep.subset fun v stays =>
    ⟨sweep.heap _ fun w taken => (sweep.apart sound.owned stays w taken).1,
      sweep.heap _ fun w taken => (sweep.apart sound.owned stays w taken).2⟩
  fresh := by
    intro b beyond
    rw [sweep.next] at beyond
    rw [sweep.heap b, sound.fresh b beyond]
    intro w taken
    have inside := (mem_filter.mp taken).1
    have first := sound.data_lt inside
    have second := sound.address_lt inside
    omega
  traced := by
    intro e member b named
    rw [sweep.next]
    rw [sweep.trace] at member
    rcases mem_append.mp member with old | added
    · exact sound.traced e old b named
    · obtain ⟨a, inside, rfl⟩ := mem_map.mp added
      obtain ⟨w, taken, is | is⟩ := sweep.named a inside b named
      · exact is ▸ sound.data_lt (mem_filter.mp taken).1
      · exact is ▸ sound.address_lt (mem_filter.mp taken).1
  entries := by
    intro v stays e member
    rw [sweep.trace] at member
    rcases mem_append.mp member with old | added
    · exact sound.entries v (sweep.subset.subset stays) e old
    · obtain ⟨a, inside, rfl⟩ := mem_map.mp added
      by_contra named
      obtain ⟨w, taken, is | is⟩ := sweep.named a inside v.address (Bool.eq_true_of_not_eq_false named)
      · exact (sweep.apart sound.owned stays w taken).2.1 is
      · exact (sweep.apart sound.owned stays w taken).2.2 is

end

theorem mem_sendActions {a : Action} {w : IpWait} (member : a ∈ sendActions p mac w) :
    a = .sendIpFragmentNow w.data mac (p.bytes w.data) ∨ a = .free w.data ∨ a = .free w.address := by
  unfold sendActions at member
  rwa [mem_cons, mem_cons, mem_singleton] at member

theorem mem_dropActions {a : Action} {w : IpWait} (member : a ∈ dropActions w) :
    a = .free w.data ∨ a = .free w.address := by
  unfold dropActions at member
  rwa [mem_cons, mem_singleton] at member

section

variable (arp : ∀ a ∈ others, IsArp a)
include arp

theorem quiet_sweep
    (trace : p'.trace = p.trace ++ others.map (Prod.mk p.tick)) (list : p'.ipWaitList = p.ipWaitList)
    (next : p'.next = p.next) (heap : p'.heap = p.heap) : Sweep p p' (fun _ => false) others where
  trace := trace
  list := by
    rw [list]
    exact (filter_eq_self.mpr fun w _ => rfl).symm
  next := next
  heap := fun b _ => by rw [heap]
  named := fun a member b named => by
    rw [about_arp (arp a member)] at named
    exact (Bool.false_ne_true named).elim
  calls := by
    rintro _ member b bytes rfl
    exact arp _ member

theorem learn_sweep {ip : Addr}
    (trace : p'.trace = p.trace ++ (.known ip mac ::
      ((p.ipWaitList.filter fun w => w.destIPLocal = ip).flatMap (sendActions p mac) ++ others)).map
        (Prod.mk p.tick))
    (list : p'.ipWaitList = p.ipWaitList.filter fun w => !decide (w.destIPLocal = ip))
    (next : p'.next = p.next)
    (heap : ∀ b, (∀ w ∈ p.ipWaitList.filter (fun w : IpWait => w.destIPLocal = ip),
      b ≠ w.data ∧ b ≠ w.address) → p'.heap b = p.heap b) :
    Sweep p p' (fun w => w.destIPLocal = ip) (.known ip mac ::
      ((p.ipWaitList.filter fun w => w.destIPLocal = ip).flatMap (sendActions p mac) ++ others)) where
  trace := trace
  list := list
  next := next
  heap := heap
  named := by
    intro a member b named
    rcases mem_cons.mp member with rfl | later
    · exact (Bool.false_ne_true named).elim
    · rcases mem_append.mp later with sends | other
      · obtain ⟨w, taken, inside⟩ := mem_flatMap.mp sends
        refine ⟨w, taken, ?_⟩
        rcases mem_sendActions inside with rfl | rfl | rfl
        · exact .inl (of_decide_eq_true named).symm
        · exact .inl (of_decide_eq_true named).symm
        · exact .inr (of_decide_eq_true named).symm
      · rw [about_arp (arp a other)] at named
        exact (Bool.false_ne_true named).elim
  calls := by
    rintro _ member b bytes rfl
    rcases mem_cons.mp member with is | later
    · exact Action.noConfusion is
    · rcases mem_append.mp later with sends | other
      · obtain ⟨w, taken, inside⟩ := mem_flatMap.mp sends
        rcases mem_sendActions inside with is | is | is <;> cases is
      · exact arp _ other

theorem expire_sweep
    (trace : p'.trace = p.trace ++
      (others ++ (p.ipWaitList.filter fun w => w.expire ≤ p.tick).flatMap dropActions).map (Prod.mk p.tick))
    (list : p'.ipWaitList = p.ipWaitList.filter fun w => !decide (w.expire ≤ p.tick))
    (next : p'.next = p.next)
    (heap : ∀ b, (∀ w ∈ p.ipWaitList.filter (fun w : IpWait => w.expire ≤ p.tick),
      b ≠ w.data ∧ b ≠ w.address) → p'.heap b = p.heap b) :
    Sweep p p' (fun w => w.expire ≤ p.tick)
      (others ++ (p.ipWaitList.filter fun w => w.expire ≤ p.tick).flatMap dropActions) where
  trace := trace
  list := list
  next := next
  heap := heap
  named := by
    intro a member b named
    rcases mem_append.mp member with other | drops
    · rw [about_arp (arp a other)] at named
      exact (Bool.false_ne_true named).elim
    · obtain ⟨w, taken, inside⟩ := mem_flatMap.mp drops
      refine ⟨w, taken, ?_⟩
      rcases mem_dropActions inside with rfl | rfl
      · exact .inl (of_decide_eq_true named).symm
      · exact .inr (of_decide_eq_true named).symm
  calls := by
    rintro _ member b bytes rfl
    rcases mem_append.mp member with other | drops
    · exact arp _ other
    · obtain ⟨w, taken, inside⟩ := mem_flatMap.mp drops
      rcases mem_dropActions inside with is | is <;> cases is

end

theorem Sound.of_call (sound : Sound p) {actions : List Action}
    (named : ∀ a ∈ actions, ∀ b, about b a = true → b = p.next) (count : p.next < p'.next)
    (trace : p'.trace = p.trace ++ actions.map (Prod.mk p.tick)) (owned : p'.Owned)
    (fresh : ∀ b, p'.next ≤ b → p'.heap b = none)
    (old : ∀ w ∈ p'.ipWaitList, w.address ≠ p.next ∧ (w ∈ p.ipWaitList ∨ p.next ≤ w.address)) :
    Sound p' where
  owned := owned
  fresh := fresh
  traced := by
    intro e member b about
    rw [trace] at member
    rcases mem_append.mp member with before | added
    · have := sound.traced e before b about
      omega
    · obtain ⟨a, inside, rfl⟩ := mem_map.mp added
      rw [named a inside b about]
      exact count
  entries := by
    intro w waits e member
    obtain ⟨other, place⟩ := old w waits
    rw [trace] at member
    by_contra about
    have about := Bool.eq_true_of_not_eq_false about
    rcases mem_append.mp member with before | added
    · rcases place with inside | beyond
      · rw [sound.entries w inside e before] at about
        exact Bool.false_ne_true about
      · have := sound.traced e before _ about
        omega
    · obtain ⟨a, inside, rfl⟩ := mem_map.mp added
      exact other (named a inside _ about)

theorem change_sound (change : Change c p event p') (sound : Sound p) : Sound p' := by
  cases change with
  | quiet _ _ arp trace list next heap => exact (quiet_sweep arp trace list next heap).sound sound
  | learn _ _ arp trace list next heap => exact (learn_sweep arp trace list next heap).sound sound
  | expire _ arp trace list next heap => exact (expire_sweep arp trace list next heap).sound sound
  | finish ways trace list next heap =>
    have low : ∀ w ∈ p.ipWaitList, w.data ≠ p.next ∧ w.address ≠ p.next := fun w waits =>
      ⟨Nat.ne_of_lt (sound.data_lt waits), Nat.ne_of_lt (sound.address_lt waits)⟩
    refine sound.of_call ?_ (by omega) trace ?_ ?_ ?_
    · intro a member b named
      rcases mem_cons.mp member with rfl | later
      · exact (of_decide_eq_true named).symm
      · rcases ways with ⟨_, rfl⟩ | ⟨_, _, rfl⟩ | ⟨_, mac, rfl⟩
        · exact (not_mem_nil later).elim
        · rw [mem_singleton.mp later] at named
          exact (of_decide_eq_true named).symm
        · rw [mem_cons, mem_singleton] at later
          rcases later with rfl | rfl
          · exact (of_decide_eq_true named).symm
          · exact (of_decide_eq_true named).symm
    · refine sound.owned.of_sublist (list ▸ List.Sublist.refl _) ?_
      rw [list]
      exact fun w waits => ⟨heap _ (low w waits).1, heap _ (low w waits).2⟩
    · intro b beyond
      rw [heap b (by omega)]
      exact sound.fresh b (by omega)
    · rw [list]
      exact fun w waits => ⟨(low w waits).2, .inl waits⟩
  | @queue _ data _ hop srcIP others _ _ arp trace list next heap entry =>
    have low : ∀ w ∈ p.ipWaitList, w.data < p.next ∧ w.address < p.next := fun w waits =>
      ⟨sound.data_lt waits, sound.address_lt waits⟩
    have same : ∀ b, b < p.next → p'.heap b = p.heap b := by
      intro b below
      rw [heap b (by omega), Function.update_of_ne (by omega)]
    have held : p'.heap p.next = some data := by rw [heap _ (by omega), Function.update_self]
    refine sound.of_call ?_ (by omega) trace ⟨?_, ?_, ?_, ?_, ?_⟩ ?_ ?_
    · intro a member b named
      rcases mem_cons.mp member with rfl | later
      · exact (of_decide_eq_true named).symm
      · rcases mem_cons.mp later with rfl | other
        · exact (of_decide_eq_true named).symm
        · rw [about_arp (arp a other)] at named
          exact (Bool.false_ne_true named).elim
    · rw [list, map_append, nodup_append]
      refine ⟨sound.owned.addresses, nodup_singleton _, ?_⟩
      intro a inside b last
      obtain ⟨w, waits, rfl⟩ := mem_map.mp inside
      rw [map_cons, map_nil, mem_singleton] at last
      rw [last]
      exact Nat.ne_of_lt (Nat.lt_succ_of_lt (low w waits).2)
    · rw [list, map_append, nodup_append]
      refine ⟨sound.owned.buffers, nodup_singleton _, ?_⟩
      intro a inside b last
      obtain ⟨w, waits, rfl⟩ := mem_map.mp inside
      rw [map_cons, map_nil, mem_singleton] at last
      rw [last]
      exact Nat.ne_of_lt (low w waits).1
    · rw [list]
      intro v first w second
      rcases mem_append.mp first with before | last
      · rcases mem_append.mp second with before' | last'
        · exact sound.owned.apart v before w before'
        · rw [mem_singleton.mp last']
          exact Nat.ne_of_lt (low v before).2
      · rw [mem_singleton.mp last]
        rcases mem_append.mp second with before' | last'
        · have := (low w before').1
          change p.next + 1 ≠ w.data
          omega
        · rw [mem_singleton.mp last']
          exact Nat.succ_ne_self _
    · rw [list]
      intro w waits
      rcases mem_append.mp waits with before | last
      · rw [same _ (low w before).1]
        exact sound.owned.data w before
      · rw [mem_singleton.mp last]
        change (p'.heap p.next).isSome = true
        rw [held, Option.isSome_some]
    · rw [list]
      intro w waits
      rcases mem_append.mp waits with before | last
      · rw [same _ (low w before).2]
        exact sound.owned.entry w before
      · rw [mem_singleton.mp last]
        exact entry
    · intro b beyond
      rw [heap b (by omega), Function.update_of_ne (by omega)]
      exact sound.fresh b (by omega)
    · rw [list]
      intro w waits
      rcases mem_append.mp waits with before | last
      · have := (low w before).2
        exact ⟨by omega, .inl before⟩
      · rw [mem_singleton.mp last]
        exact ⟨Nat.succ_ne_self _, .inr (Nat.le_succ _)⟩

/-!
What becomes of a packet that is handed to `Se4SendRawIp`, told by the trace of a run: it is sent, it waits,
or it is dropped, and its buffer is released once unless it waits or is too short.
-/

open Splits

variable {data : List UInt8} {tick : UInt64} {history more : List (UInt64 × Action)} {hop : Option Addr}

def concerns (buf : ℕ) (hop : Option Addr) : UInt64 × Action → Bool
  | (_, .known ip _) => hop = some ip
  | (_, action) => about buf action

section Concerns

variable {b : ℕ} {next ip : Addr} {bytes : List UInt8}

@[simp] theorem concerns_insertIpWait : concerns buf hop (tick, .insertIpWait b next) = decide (b = buf) := rfl

@[simp] theorem concerns_sendIpFragmentNow :
    concerns buf hop (tick, .sendIpFragmentNow b mac bytes) = decide (b = buf) := rfl

@[simp] theorem concerns_free : concerns buf hop (tick, .free b) = decide (b = buf) := rfl

@[simp] theorem concerns_known : concerns buf hop (tick, .known ip mac) = decide (hop = some ip) := rfl

end Concerns

def IsKnown : UInt64 × Action → Prop
  | (_, .known _ _) => True
  | _ => False

def Gone (p : Ipv4) (buf : ℕ) : Prop := ∀ w ∈ p.ipWaitList, w.data ≠ buf

/-- What becomes of a packet in the buffer `buf`, with the actions after the call of `Se4SendRawIp`: those
with the buffer, and the relations for the next hop. -/
inductive Fate (c : Config) (p : Ipv4) (buf : ℕ) (data : List UInt8) : List (UInt64 × Action) → Prop
  | noRoute {t : UInt64} {later : List (UInt64 × Action)} :
      nextHop c (readHeader data).dstIP = none → Gone p buf → (∀ e ∈ later, IsKnown e) →
      Fate c p buf data ((t, .free buf) :: later)
  | direct {t : UInt64} {mac : Mac} {later : List (UInt64 × Action)} :
      Gone p buf → (∀ e ∈ later, IsKnown e) →
      Fate c p buf data ((t, .sendIpFragmentNow buf mac data) :: (t, .free buf) :: later)
  | waiting {t : UInt64} {hop : Addr} {w : IpWait} :
      nextHop c (readHeader data).dstIP = some hop → w ∈ p.ipWaitList → w.data = buf →
      w.destIPLocal = hop → w.expire = waitExpire t → p.heap buf = some data →
      Fate c p buf data [(t, .insertIpWait buf hop)]
  | sent {t t' : UInt64} {hop : Addr} {mac : Mac} {later : List (UInt64 × Action)} :
      nextHop c (readHeader data).dstIP = some hop → Gone p buf → (∀ e ∈ later, IsKnown e) →
      Fate c p buf data ((t, .insertIpWait buf hop) :: (t', .known hop mac) ::
        (t', .sendIpFragmentNow buf mac data) :: (t', .free buf) :: later)
  | discarded {t t' : UInt64} {hop : Addr} {later : List (UInt64 × Action)} :
      nextHop c (readHeader data).dstIP = some hop → waitExpire t ≤ t' → Gone p buf →
      (∀ e ∈ later, IsKnown e) →
      Fate c p buf data ((t, .insertIpWait buf hop) :: (t', .free buf) :: later)

def Past (c : Config) (p : Ipv4) (buf : ℕ) (data : List UInt8) (history : List (UInt64 × Action)) : Prop :=
  20 < data.length ∧ Fate c p buf data history ∨ data.length ≤ 20 ∧ Gone p buf ∧ ∀ e ∈ history, IsKnown e

theorem Past.extend (past : Past c p buf data history) (gone : Gone p buf) (gone' : Gone p' buf)
    (known : ∀ e ∈ more, IsKnown e) : Past c p' buf data (history ++ more) := by
  have both {later : List (UInt64 × Action)} (before : ∀ e ∈ later, IsKnown e) : ∀ e ∈ later ++ more, IsKnown e := by
    intro e member
    rcases mem_append.mp member with inside | inside
    · exact before e inside
    · exact known e inside
  rcases past with ⟨long, fate⟩ | ⟨short, _, quiet⟩
  · refine .inl ⟨long, ?_⟩
    cases fate with
    | noRoute next _ later => exact .noRoute next gone' (both later)
    | direct _ later => exact .direct gone' (both later)
    | waiting _ waits is => exact absurd is (gone _ waits)
    | sent next _ later => exact .sent next gone' (both later)
    | discarded next old _ later => exact .discarded next old gone' (both later)
  · exact .inr ⟨short, gone', both quiet⟩

theorem Past.waits (past : Past c p buf data history) (owned : p.Owned) (waits : w ∈ p.ipWaitList)
    (is : w.data = buf) :
    20 < data.length ∧ ∃ t hop, nextHop c (readHeader data).dstIP = some hop ∧ history = [(t, .insertIpWait buf hop)] ∧
      w.destIPLocal = hop ∧ w.expire = waitExpire t ∧ p.heap buf = some data := by
  rcases past with ⟨long, fate⟩ | ⟨_, gone, _⟩
  · refine ⟨long, ?_⟩
    cases fate with
    | noRoute _ gone => exact absurd is (gone w waits)
    | direct gone => exact absurd is (gone w waits)
    | @waiting t hop v next waits' is' dest expire held =>
      have same : w = v := inj_on_of_nodup_map owned.buffers waits waits' (is.trans is'.symm)
      subst same
      exact ⟨t, hop, next, rfl, dest, expire, held⟩
    | sent _ gone => exact absurd is (gone w waits)
    | discarded _ _ gone => exact absurd is (gone w waits)
  · exact absurd is (gone w waits)

/-- Each call of `Se4SendRawIp` is the first action with its buffer, and the packet has its fate. -/
def Told (c : Config) (p : Ipv4) : Prop :=
  ∀ before t buf data after, p.trace = before ++ (t, .sendRawIp buf data) :: after →
    (∀ e ∈ before, about buf e.2 = false) ∧
      Past c p buf data (after.filter (concerns buf (nextHop c (readHeader data).dstIP)))

theorem concerns_cases {e : UInt64 × Action} (has : concerns buf hop e = true) :
    (∃ ip mac, e.2 = .known ip mac ∧ hop = some ip) ∨ about buf e.2 = true := by
  obtain ⟨t, a⟩ := e
  cases a with
  | known ip mac => exact .inl ⟨ip, mac, rfl, of_decide_eq_true has⟩
  | sendRawIp b bytes => exact .inr has
  | insertIpWait b next => exact .inr has
  | sendIpFragmentNow b mac bytes => exact .inr has
  | free b => exact .inr has
  | sendArp mac header => exact .inr has

theorem isKnown_of {e : UInt64 × Action} (has : ∃ ip mac, e.2 = .known ip mac ∧ hop = some ip) : IsKnown e := by
  obtain ⟨t, a⟩ := e
  obtain ⟨ip, mac, rfl, _⟩ := has
  exact trivial

section

variable (sweep : Sweep p p' wanted new)
include sweep

theorem Sweep.told (sound : Sound p) (told : Told c p)
    (waiting : ∀ w ∈ p.ipWaitList, ∀ data t, 20 < data.length → p.heap w.data = some data →
      nextHop c (readHeader data).dstIP = some w.destIPLocal → w.expire = waitExpire t →
      Past c p' w.data data ((t, .insertIpWait w.data w.destIPLocal) ::
        (new.map (Prod.mk p.tick)).filter (concerns w.data (some w.destIPLocal)))) : Told c p' := by
  intro before t buf data after trace
  rw [sweep.trace] at trace
  rcases append_eq_split trace with ⟨mid, is, rfl⟩ | ⟨mid, is, added⟩
  · obtain ⟨first, past⟩ := told before t buf data mid is
    refine ⟨first, ?_⟩
    rw [filter_append]
    by_cases gone : Gone p buf
    · refine past.extend gone (fun w waits => gone w (sweep.subset.subset waits)) ?_
      intro e member
      obtain ⟨inside, has⟩ := mem_filter.mp member
      obtain ⟨a, listed, rfl⟩ := mem_map.mp inside
      rcases concerns_cases has with known | named
      · exact isKnown_of known
      · obtain ⟨w, taken, is' | is'⟩ := sweep.named a listed buf named
        · exact absurd is'.symm (gone w (mem_filter.mp taken).1)
        · have called : (t, Action.sendRawIp buf data) ∈ p.trace := by
            rw [is]
            exact mem_append_right _ mem_cons_self
          have never := sound.entries w (mem_filter.mp taken).1 _ called
          rw [← is'] at never
          exact absurd (decide_eq_true rfl) (Bool.eq_false_iff.mp never)
    · unfold Gone at gone
      push Not at gone
      obtain ⟨w, waits, rfl⟩ := gone
      obtain ⟨long, t', hop, next, history, rfl, expire, held⟩ := past.waits sound.owned waits rfl
      rw [history, next]
      exact waiting w waits data t' long held next expire
  · obtain ⟨a, inside, is'⟩ := mem_map.mp (added ▸ mem_append_right mid mem_cons_self)
    rw [Prod.mk.injEq] at is'
    exact absurd is'.2 (sweep.calls a inside buf data)

theorem Sweep.stays {t : UInt64} (sound : Sound p) (waits : w ∈ p.ipWaitList) (unwanted : wanted w = false)
    (unknown : ∀ mac, Action.known w.destIPLocal mac ∉ new) (long : 20 < data.length) (held : p.heap w.data = some data)
    (next : nextHop c (readHeader data).dstIP = some w.destIPLocal) (expire : w.expire = waitExpire t) :
    Past c p' w.data data ((t, .insertIpWait w.data w.destIPLocal) ::
      (new.map (Prod.mk p.tick)).filter (concerns w.data (some w.destIPLocal))) := by
  have stays : w ∈ p'.ipWaitList := by
    rw [sweep.list, mem_filter, unwanted]
    exact ⟨waits, rfl⟩
  have apart := sweep.apart sound.owned stays
  have none' : (new.map (Prod.mk p.tick)).filter (concerns w.data (some w.destIPLocal)) = [] := by
    rw [filter_eq_nil_iff]
    intro e member has
    obtain ⟨a, listed, rfl⟩ := mem_map.mp member
    rcases concerns_cases has with ⟨ip, mac, is, same⟩ | named
    · cases same
      have is : a = .known w.destIPLocal mac := is
      exact unknown mac (is ▸ listed)
    · obtain ⟨v, taken, is | is⟩ := sweep.named a listed w.data named
      · exact (apart v taken).1.1 is
      · exact (apart v taken).1.2 is
  rw [none']
  refine .inl ⟨long, .waiting next stays rfl rfl expire ?_⟩
  rw [sweep.heap _ fun v taken => (apart v taken).1]
  exact held

theorem Sweep.gone (sound : Sound p) (waits : w ∈ p.ipWaitList) (chosen : wanted w = true) : Gone p' w.data := by
  intro v stays
  exact (sweep.apart sound.owned stays w (mem_filter.mpr ⟨waits, chosen⟩)).1.1

end

theorem taken_actions (owned : p.Owned) {actions : IpWait → List Action} {hop : Option Addr}
    (waits : w ∈ p.ipWaitList) (chosen : wanted w = true)
    (named : ∀ v, ∀ a ∈ actions v, ∀ b, concerns b hop (tick, a) = true → b = v.data ∨ b = v.address) :
    (((p.ipWaitList.filter wanted).flatMap actions).map (Prod.mk tick)).filter (concerns w.data hop) =
      ((actions w).map (Prod.mk tick)).filter (concerns w.data hop) := by
  rw [map_flatMap]
  refine filter_flatMap_single ?_ (mem_filter.mpr ⟨waits, chosen⟩) ?_
  · exact (List.Nodup.of_map _ owned.addresses).filter _
  · intro v taken other
    have inside := (mem_filter.mp taken).1
    rw [filter_eq_nil_iff]
    intro e member has
    obtain ⟨a, listed, rfl⟩ := mem_map.mp member
    rcases named v a listed w.data has with is | is
    · exact other (inj_on_of_nodup_map owned.buffers inside waits is.symm)
    · exact owned.apart v inside w waits is.symm

theorem arp_filter (arp : ∀ a ∈ others, IsArp a) : (others.map (Prod.mk tick)).filter (concerns buf hop) = [] := by
  rw [filter_eq_nil_iff]
  intro e member has
  obtain ⟨a, inside, rfl⟩ := mem_map.mp member
  rcases concerns_cases has with ⟨ip, mac, is, _⟩ | named
  · have is : a = .known ip mac := is
    exact arp _ (is ▸ inside)
  · have named : about buf a = true := named
    rw [about_arp (arp a inside)] at named
    exact Bool.false_ne_true named

theorem learn_told {ip : Addr} (sound : Sound p) (told : Told c p) (arp : ∀ a ∈ others, IsArp a)
    (sweep : Sweep p p' (fun w => w.destIPLocal = ip) (.known ip mac ::
      ((p.ipWaitList.filter fun w => w.destIPLocal = ip).flatMap (sendActions p mac) ++ others))) : Told c p' := by
  refine sweep.told sound told ?_
  intro w waits data t long held next expire
  by_cases chosen : w.destIPLocal = ip
  · have gone := sweep.gone sound waits (decide_eq_true chosen)
    have mine : ((sendActions p mac w).map (Prod.mk p.tick)).filter (concerns w.data (some ip)) =
        [(p.tick, .sendIpFragmentNow w.data mac data), (p.tick, .free w.data)] := by
      have apart := sound.owned.apart w waits w waits
      simp [sendActions, Ipv4.bytes, held, apart]
    have named : ∀ v, ∀ a ∈ sendActions p mac v, ∀ b, concerns b (some ip) (p.tick, a) = true →
        b = v.data ∨ b = v.address := by
      intro v a member b has
      rcases mem_sendActions member with rfl | rfl | rfl
      · exact .inl (of_decide_eq_true has).symm
      · exact .inl (of_decide_eq_true has).symm
      · exact .inr (of_decide_eq_true has).symm
    have learned : concerns w.data (some ip) (p.tick, .known ip mac) = true := decide_eq_true rfl
    rw [chosen, map_cons, filter_cons_of_pos learned, map_append, filter_append,
      taken_actions sound.owned waits (decide_eq_true chosen) named, mine, arp_filter arp]
    exact .inl ⟨long, .sent (chosen ▸ next) gone fun e member => (not_mem_nil member).elim⟩
  · refine sweep.stays sound waits (decide_eq_false chosen) ?_ long held next expire
    intro mac' member
    rcases mem_cons.mp member with is | later
    · rw [Action.known.injEq] at is
      exact chosen is.1
    · rcases mem_append.mp later with sends | other
      · obtain ⟨v, _, inside⟩ := mem_flatMap.mp sends
        rcases mem_sendActions inside with is | is | is <;> cases is
      · exact arp _ other

theorem expire_told (sound : Sound p) (told : Told c p) (arp : ∀ a ∈ others, IsArp a)
    (sweep : Sweep p p' (fun w => w.expire ≤ p.tick)
      (others ++ (p.ipWaitList.filter fun w => w.expire ≤ p.tick).flatMap dropActions)) : Told c p' := by
  refine sweep.told sound told ?_
  intro w waits data t long held next expire
  by_cases chosen : w.expire ≤ p.tick
  · have gone := sweep.gone sound waits (decide_eq_true chosen)
    have mine : ((dropActions w).map (Prod.mk p.tick)).filter (concerns w.data (some w.destIPLocal)) =
        [(p.tick, .free w.data)] := by
      have apart := sound.owned.apart w waits w waits
      simp [dropActions, apart]
    have named : ∀ v, ∀ a ∈ dropActions v, ∀ b, concerns b (some w.destIPLocal) (p.tick, a) = true →
        b = v.data ∨ b = v.address := by
      intro v a member b has
      rcases mem_dropActions member with rfl | rfl
      · exact .inl (of_decide_eq_true has).symm
      · exact .inr (of_decide_eq_true has).symm
    rw [map_append, filter_append, arp_filter arp, nil_append,
      taken_actions sound.owned waits (decide_eq_true chosen) named, mine]
    exact .inl ⟨long, .discarded next (expire ▸ chosen) gone
      fun e member => (not_mem_nil member).elim⟩
  · refine sweep.stays sound waits (decide_eq_false chosen) ?_ long held next expire
    intro mac' member
    rcases mem_append.mp member with other | dropped
    · exact arp _ other
    · obtain ⟨v, _, inside⟩ := mem_flatMap.mp dropped
      rcases mem_dropActions inside with is | is <;> cases is

theorem call_told {actions : List Action} (sound : Sound p) (told : Told c p)
    (trace : p'.trace = p.trace ++ (.sendRawIp p.next data :: actions).map (Prod.mk p.tick))
    (named : ∀ a ∈ actions, ∀ b, about b a = true → b = p.next)
    (arp : ∀ a ∈ actions, ∀ ip mac, a ≠ .known ip mac) (calls : ∀ a ∈ actions, ∀ b bytes, a ≠ .sendRawIp b bytes)
    (list : ∀ w ∈ p'.ipWaitList, w ∈ p.ipWaitList ∨ w.data = p.next)
    (kept : ∀ w ∈ p.ipWaitList, w ∈ p'.ipWaitList ∧ p'.heap w.data = p.heap w.data)
    (fate : Past c p' p.next data ((actions.map (Prod.mk p.tick)).filter
      (concerns p.next (nextHop c (readHeader data).dstIP)))) : Told c p' := by
  intro before t buf bytes after split
  rw [trace] at split
  rcases append_eq_split split with ⟨mid, is, rfl⟩ | ⟨mid, is, added⟩
  · obtain ⟨first, past⟩ := told before t buf bytes mid is
    refine ⟨first, ?_⟩
    have older : buf < p.next := by
      refine sound.traced (t, .sendRawIp buf bytes) ?_ buf (decide_eq_true rfl)
      rw [is]
      exact mem_append_right _ mem_cons_self
    have none' : ((.sendRawIp p.next data :: actions).map (Prod.mk p.tick)).filter
        (concerns buf (nextHop c (readHeader bytes).dstIP)) = [] := by
      rw [filter_eq_nil_iff]
      intro e member has
      obtain ⟨a, inside, rfl⟩ := mem_map.mp member
      rcases mem_cons.mp inside with rfl | later
      · have same : p.next = buf := of_decide_eq_true has
        omega
      · rcases concerns_cases has with ⟨ip, mac, known, _⟩ | is'
        · exact arp a later ip mac known
        · have same := named a later buf is'
          omega
    rw [filter_append, none', append_nil]
    by_cases gone : Gone p buf
    · have gone' : Gone p' buf := by
        intro w waits same
        rcases list w waits with inside | new
        · exact gone w inside same
        · omega
      have := past.extend gone gone' (fun e member => (not_mem_nil member).elim)
      rwa [append_nil] at this
    · unfold Gone at gone
      push Not at gone
      obtain ⟨w, waits, rfl⟩ := gone
      obtain ⟨long, t', hop, next, history, rfl, expire, held⟩ := past.waits sound.owned waits rfl
      obtain ⟨stays, same⟩ := kept w waits
      rw [history]
      exact .inl ⟨long, .waiting next stays rfl rfl expire (same.trans held)⟩
  · cases mid with
    | nil =>
      rw [map_cons, nil_append, List.cons.injEq, Prod.mk.injEq, Action.sendRawIp.injEq] at added
      obtain ⟨⟨rfl, rfl, rfl⟩, rfl⟩ := added
      refine ⟨?_, fate⟩
      intro e member
      rw [is, append_nil] at member
      by_contra about
      have := sound.traced e member p.next (Bool.eq_true_of_not_eq_false about)
      omega
    | cons first mid =>
      rw [map_cons, cons_append, List.cons.injEq] at added
      obtain ⟨a, inside, is'⟩ := mem_map.mp (added.2 ▸ mem_append_right mid mem_cons_self)
      rw [Prod.mk.injEq] at is'
      exact absurd is'.2 (calls a inside buf bytes)

theorem change_told (change : Change c p event p') (sound : Sound p) (told : Told c p) : Told c p' := by
  cases change with
  | quiet _ _ arp trace list next heap =>
    have sweep := quiet_sweep arp trace list next heap
    refine sweep.told sound told ?_
    intro w waits data t long held next expire
    exact sweep.stays sound waits rfl (fun mac member => arp _ member) long held next expire
  | learn _ _ arp trace list next heap => exact learn_told sound told arp (learn_sweep arp trace list next heap)
  | expire _ arp trace list next heap => exact expire_told sound told arp (expire_sweep arp trace list next heap)
  | @finish _ data _ actions ways trace list next heap =>
    have gone : Gone p' p.next := by
      intro w waits
      rw [list] at waits
      exact Nat.ne_of_lt (sound.data_lt waits)
    have kept : ∀ w ∈ p.ipWaitList, w ∈ p'.ipWaitList ∧ p'.heap w.data = p.heap w.data := by
      intro w waits
      rw [list]
      exact ⟨waits, heap _ (Nat.ne_of_lt (sound.data_lt waits))⟩
    have old : ∀ w ∈ p'.ipWaitList, w ∈ p.ipWaitList ∨ w.data = p.next := by
      rw [list]
      exact fun w waits => .inl waits
    have none' : ∀ e ∈ ([] : List (UInt64 × Action)), IsKnown e := fun e member => (not_mem_nil member).elim
    rcases ways with ⟨short, rfl⟩ | ⟨long, noRoute, rfl⟩ | ⟨long, mac, rfl⟩
    · refine call_told sound told trace ?_ ?_ ?_ old kept (.inr ⟨short, gone, none'⟩)
      · exact fun a member => (not_mem_nil member).elim
      · exact fun a member => (not_mem_nil member).elim
      · exact fun a member => (not_mem_nil member).elim
    · refine call_told sound told trace ?_ ?_ ?_ old kept ?_
      · intro a member b named
        rw [mem_singleton.mp member] at named
        exact (of_decide_eq_true named).symm
      · rintro a member ip mac rfl
        exact Action.noConfusion (mem_singleton.mp member)
      · rintro a member b bytes rfl
        exact Action.noConfusion (mem_singleton.mp member)
      · have freed : concerns p.next (nextHop c (readHeader data).dstIP) (p.tick, .free p.next) = true :=
          decide_eq_true rfl
        rw [map_singleton, filter_cons_of_pos freed]
        exact .inl ⟨long, .noRoute noRoute gone none'⟩
    · have two {a : Action} (member : a ∈ [.sendIpFragmentNow p.next mac data, .free p.next]) :
          a = .sendIpFragmentNow p.next mac data ∨ a = .free p.next := by
        rwa [mem_cons, mem_singleton] at member
      refine call_told sound told trace ?_ ?_ ?_ old kept ?_
      · intro a member b named
        rcases two member with rfl | rfl
        · exact (of_decide_eq_true named).symm
        · exact (of_decide_eq_true named).symm
      · rintro a member ip mac rfl
        rcases two member with is | is
        · exact Action.noConfusion is
        · exact Action.noConfusion is
      · rintro a member b bytes rfl
        rcases two member with is | is
        · exact Action.noConfusion is
        · exact Action.noConfusion is
      · have both : ([.sendIpFragmentNow p.next mac data, .free p.next].map (Prod.mk p.tick)).filter
            (concerns p.next (nextHop c (readHeader data).dstIP)) =
            [(p.tick, .sendIpFragmentNow p.next mac data), (p.tick, .free p.next)] := by simp
        rw [both]
        exact .inl ⟨long, .direct gone none'⟩
  | @queue _ data _ hop srcIP others next long arp trace list _ heap entry =>
    have low : ∀ w ∈ p.ipWaitList, w.data < p.next := fun w waits => sound.data_lt waits
    refine call_told sound told trace ?_ ?_ ?_ ?_ ?_ ?_
    · intro a member b named
      rcases mem_cons.mp member with rfl | other
      · exact (of_decide_eq_true named).symm
      · rw [about_arp (arp a other)] at named
        exact (Bool.false_ne_true named).elim
    · rintro a member ip mac rfl
      rcases mem_cons.mp member with is | other
      · exact Action.noConfusion is
      · exact arp _ other
    · rintro a member b bytes rfl
      rcases mem_cons.mp member with is | other
      · exact Action.noConfusion is
      · exact arp _ other
    · rw [list]
      intro w waits
      rcases mem_append.mp waits with before | last
      · exact .inl before
      · rw [mem_singleton.mp last]
        exact .inr rfl
    · intro w waits
      have below := low w waits
      rw [list, heap _ (by omega), Function.update_of_ne (by omega)]
      exact ⟨mem_append_left _ waits, rfl⟩
    · have inserted : concerns p.next (nextHop c (readHeader data).dstIP)
          (p.tick, .insertIpWait p.next hop) = true := decide_eq_true rfl
      rw [map_cons, filter_cons_of_pos inserted, arp_filter arp]
      have waits : (⟨p.next + 1, srcIP, hop, waitExpire p.tick, p.next⟩ : IpWait) ∈ p'.ipWaitList := by
        rw [list]
        exact mem_append_right _ mem_cons_self
      refine .inl ⟨long, .waiting next waits rfl rfl rfl ?_⟩
      rw [heap _ (by omega), Function.update_self]

end DisasVisor.Vpn.Arp
