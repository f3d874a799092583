import DisasVisor.Lib.Loops
import DisasVisor.Usb.UhciRuns

/-!
The list that `duplicate_qcontext` of `drivers/usb/uhci_shadow.c` builds: the descriptors of a guest's queue
with links among themselves, also where the guest's links lead back.
-/

namespace DisasVisor.Usb.Uhci

open List

/-- A pair of `struct uhci_td_meta`: the address of the guest's descriptor, and the duplicate. -/
structure ShadowTd where
  guest : UInt32
  phys : UInt32
  td : Td

structure ShadowQueue where
  element : UInt32
  tds : List ShadowTd

structure HostTds where
  padr : ℕ → UInt32
  nonzero : ∀ k, padr k ≠ 0
  aligned : ∀ k, uhciLink (padr k) = padr k

namespace ShadowQueue

def tail (q : ShadowQueue) : UInt32 :=
  match q.tds with
  | [] => q.element
  | last :: _ => last.td.link

def setTail (q : ShadowQueue) (link : UInt32) : ShadowQueue :=
  match q.tds with
  | [] => { q with element := link }
  | last :: others => { q with tds := { last with td := { last.td with link := link } } :: others }

def push (q : ShadowQueue) (td : ShadowTd) : ShadowQueue := { q with tds := td :: q.tds }

def guests (q : ShadowQueue) : List UInt32 := q.tds.map ShadowTd.guest

def places (q : ShadowQueue) : List (UInt32 × UInt32) := q.tds.map fun m => (m.guest, m.phys)

def linkLoop (q : ShadowQueue) (phys : UInt32) : UInt32 :=
  if phys = 0 then 0
  else
    match q.tds.reverse.find? fun m => m.guest = phys with
    | some m => m.phys
    | none => 0

end ShadowQueue

open ShadowQueue

variable (mem : UInt32 → Td) (host : HostTds)

def duplicateTd (q : ShadowQueue) : ShadowQueue :=
  (q.setTail (host.padr q.tds.length ||| (q.tail &&& 4))).push
    ⟨uhciLink q.tail, host.padr q.tds.length, mem (uhciLink q.tail)⟩

def duplicatePass (q : ShadowQueue) : ShadowQueue ⊕ Option ShadowQueue :=
  if isTerminate q.tail then .inr (some q)
  else
    let td := mem (uhciLink q.tail)
    let next := duplicateTd mem host q
    if td.link &&& 2 ≠ 0 then .inr none
    else if next.linkLoop td.link ≠ 0 then .inr (some (next.setTail (next.linkLoop td.link)))
    else if !isActiveTd td then .inr (some (next.setTail 1))
    else .inl next

def duplicate (element : UInt32) (fuel : ℕ) : Option (Option ShadowQueue) :=
  if element &&& 2 ≠ 0 then some none else Passes.run (duplicatePass mem host) fuel ⟨element, []⟩

variable (element : UInt32)

inductive Reached : UInt32 → Prop
  | first : isTerminate element = false → Reached (uhciLink element)
  | next {a} : Reached a → isActiveTd (mem a) = true → isTerminate (mem a).link = false →
      Reached (uhciLink (mem a).link)

def Mirrors (places : List (UInt32 × UInt32)) (link copy : UInt32) : Prop :=
  isTerminate link = true ∧ copy = link ∨ ∃ phys, (uhciLink link, phys) ∈ places ∧ copy = phys ||| (link &&& 4)

structure Mirrored (q : ShadowQueue) : Prop where
  head : Mirrors q.places element q.element
  distinct : q.guests.Nodup
  complete : ∀ a, a ∈ q.guests ↔ Reached mem element a
  fields : ∀ m ∈ q.tds, m.td = { mem m.guest with link := m.td.link }
  links : ∀ m ∈ q.tds, Mirrors q.places (mem m.guest).link m.td.link ∨ isActiveTd (mem m.guest) = false ∧ m.td.link = 1

def Duplicates : Prop := ∃ fuel q, duplicate mem host element fuel = some (some q) ∧ Mirrored mem element q

inductive Visited : List UInt32 → Prop
  | first : isTerminate element = false → Visited [uhciLink element]
  | next {a as} : Visited (a :: as) → isActiveTd (mem a) = true → isTerminate (mem a).link = false →
      uhciLink (mem a).link ∉ a :: as → Visited (uhciLink (mem a).link :: a :: as)

/-- No link names a queue head, and the link that leads back, if there is one, is an address without flags. -/
structure Followable : Prop where
  head : element &&& 2 = 0
  queues : ∀ a, Reached mem element a → (mem a).link &&& 2 = 0
  back : ∀ a as, Visited mem element (a :: as) → isActiveTd (mem a) = true → isTerminate (mem a).link = false →
    uhciLink (mem a).link ∈ a :: as → (mem a).link = uhciLink (mem a).link

@[simp] theorem uhciLink_uhciLink (link : UInt32) : uhciLink (uhciLink link) = uhciLink link := by
  unfold uhciLink
  rw [UInt32.and_assoc, UInt32.and_self]

namespace ShadowQueue

variable {q : ShadowQueue} {link copy : UInt32}

@[simp] theorem places_setTail : (q.setTail copy).places = q.places := by
  unfold setTail places
  cases q.tds <;> rfl

@[simp] theorem guests_setTail : (q.setTail copy).guests = q.guests := by
  unfold setTail guests
  cases q.tds <;> rfl

theorem setTail_tail : q.setTail q.tail = q := by
  obtain ⟨element, tds⟩ := q
  cases tds <;> rfl

theorem mem_guests_of_places {a phys : UInt32} (place : (a, phys) ∈ q.places) : a ∈ q.guests := by
  obtain ⟨m, member, same⟩ := mem_map.mp place
  cases same
  exact mem_map.mpr ⟨m, member, rfl⟩

theorem linkLoop_place (loops : q.linkLoop link ≠ 0) : (link, q.linkLoop link) ∈ q.places := by
  unfold linkLoop at loops ⊢
  split at loops
  · exact absurd rfl loops
  · rename_i some'
    rw [if_neg some']
    cases found : q.tds.reverse.find? fun m => m.guest = link with
    | none =>
      rw [found] at loops
      exact absurd rfl loops
    | some m =>
      have member := mem_reverse.mp (mem_of_find?_eq_some found)
      have same := List.find?_some found
      exact mem_map.mpr ⟨m, member, by rw [of_decide_eq_true same]⟩

theorem linkLoop_missed (nonzero : ∀ m ∈ q.tds, m.phys ≠ 0) (misses : q.linkLoop link = 0) (some' : link ≠ 0) :
    link ∉ q.guests := by
  intro member
  obtain ⟨m, inside, same⟩ := mem_map.mp member
  unfold linkLoop at misses
  rw [if_neg some'] at misses
  cases found : q.tds.reverse.find? fun m => m.guest = link with
  | none =>
    have other := List.find?_eq_none.mp found m (mem_reverse.mpr inside)
    exact other (decide_eq_true same)
  | some other =>
    rw [found] at misses
    exact nonzero other (mem_reverse.mp (mem_of_find?_eq_some found)) misses

end ShadowQueue

section Steps

variable {mem host element} {q r : ShadowQueue} {a link copy : UInt32}

theorem Mirrors.mono {places more : List (UInt32 × UInt32)} (mirrors : Mirrors places link copy)
    (subset : places ⊆ more) : Mirrors more link copy := by
  rcases mirrors with ends | ⟨phys, place, same⟩
  · exact .inl ends
  · exact .inr ⟨phys, subset place, same⟩

def guestLink (mem : UInt32 → Td) (element : UInt32) (q : ShadowQueue) : UInt32 :=
  match q.tds with
  | [] => element
  | last :: _ => (mem last.guest).link

structure Open (mem : UInt32 → Td) (element : UInt32) (q : ShadowQueue) : Prop where
  tail : q.tail = guestLink mem element q
  head : q.tds ≠ [] → Mirrors q.places element q.element
  fields : ∀ m ∈ q.tds, m.td = { mem m.guest with link := m.td.link }
  links : ∀ m ∈ q.tds.tail, Mirrors q.places (mem m.guest).link m.td.link
  nonzero : ∀ m ∈ q.tds, m.phys ≠ 0

theorem Open.duplicateTd (host : HostTds) (opened : Open mem element q) :
    Open mem element (duplicateTd mem host q) := by
  obtain ⟨first, tds⟩ := q
  obtain ⟨tail, head, fields, links, nonzero⟩ := opened
  have new : Mirrors [(uhciLink (ShadowQueue.mk first tds).tail, host.padr tds.length)]
      (ShadowQueue.mk first tds).tail (host.padr tds.length ||| ((ShadowQueue.mk first tds).tail &&& 4)) :=
    .inr ⟨_, mem_singleton_self _, rfl⟩
  cases tds with
  | nil =>
    cases tail
    refine ⟨rfl, fun _ => new, ?_, ?_, ?_⟩
    · exact forall_mem_singleton.mpr rfl
    · exact fun m member => absurd member not_mem_nil
    · exact forall_mem_singleton.mpr (host.nonzero 0)
  | cons last others =>
    have same : last.td.link = (mem last.guest).link := tail
    have more : (ShadowQueue.mk first (last :: others)).places ⊆
        (Uhci.duplicateTd mem host ⟨first, last :: others⟩).places := subset_cons_self _ _
    refine ⟨rfl, fun _ => (head (cons_ne_nil _ _)).mono more, ?_, ?_, ?_⟩
    · refine forall_mem_cons.mpr ⟨rfl, forall_mem_cons.mpr ⟨?_, ?_⟩⟩
      · have copied := fields last mem_cons_self
        rw [copied]
      · exact fun m member => fields m (mem_cons_of_mem last member)
    · refine forall_mem_cons.mpr ⟨?_, fun m member => (links m member).mono more⟩
      have renewed := new.mono (cons_subset_cons _ (nil_subset (ShadowQueue.mk first (last :: others)).places))
      change Mirrors _ last.td.link _ at renewed
      rw [same] at renewed
      exact renewed
    · exact forall_mem_cons.mpr ⟨host.nonzero _, forall_mem_cons.mpr
        ⟨nonzero last mem_cons_self, fun m member => nonzero m (mem_cons_of_mem last member)⟩⟩

theorem guests_duplicateTd : (duplicateTd mem host q).guests = uhciLink q.tail :: q.guests :=
  congrArg (uhciLink q.tail :: ·) (guests_setTail (q := q))

theorem guestLink_duplicateTd : guestLink mem element (duplicateTd mem host q) = (mem (uhciLink q.tail)).link := rfl

theorem Reached.mem_guests (reached : Reached mem element a) (head : Mirrors q.places element q.element)
    (links : ∀ m ∈ q.tds, Mirrors q.places (mem m.guest).link m.td.link ∨
      isActiveTd (mem m.guest) = false ∧ m.td.link = 1) : a ∈ q.guests := by
  have target {link copy : UInt32} (goesOn : isTerminate link = false) (mirrors : Mirrors q.places link copy) :
      uhciLink link ∈ q.guests := by
    rcases mirrors with ⟨ends, -⟩ | ⟨phys, place, -⟩
    · rw [goesOn] at ends
      cases ends
    · exact mem_guests_of_places place
  induction reached with
  | first goesOn => exact target goesOn head
  | next _ active goesOn ih =>
    obtain ⟨m, member, rfl⟩ := mem_map.mp ih
    rcases links m member with mirrors | ⟨inactive, -⟩
    · exact target goesOn mirrors
    · rw [active] at inactive
      cases inactive

theorem Open.mirrored (opened : Open mem element q) (distinct : q.guests.Nodup)
    (reached : ∀ a ∈ q.guests, Reached mem element a) (right : Mirrors q.places (guestLink mem element q) copy ∨
      ∃ last ∈ q.tds.head?, isActiveTd (mem last.guest) = false ∧ copy = 1) :
    Mirrored mem element (q.setTail copy) := by
  have head : Mirrors q.places element (q.setTail copy).element := by
    obtain ⟨first, tds⟩ := q
    cases tds with
    | nil =>
      rcases right with mirrors | ⟨last, member, -⟩
      · exact mirrors
      · cases member
    | cons last others => exact opened.head (cons_ne_nil _ _)
  have fields : ∀ m ∈ (q.setTail copy).tds, m.td = { mem m.guest with link := m.td.link } := by
    obtain ⟨first, tds⟩ := q
    cases tds with
    | nil => exact fun m member => absurd member not_mem_nil
    | cons last others =>
      refine forall_mem_cons.mpr ⟨?_, fun m member => opened.fields m (mem_cons_of_mem last member)⟩
      have copied := opened.fields last mem_cons_self
      rw [copied]
  have links : ∀ m ∈ (q.setTail copy).tds, Mirrors q.places (mem m.guest).link m.td.link ∨
      isActiveTd (mem m.guest) = false ∧ m.td.link = 1 := by
    obtain ⟨first, tds⟩ := q
    cases tds with
    | nil => exact fun m member => absurd member not_mem_nil
    | cons last others =>
      refine forall_mem_cons.mpr ⟨?_, fun m member => .inl (opened.links m member)⟩
      rcases right with mirrors | ⟨m, same, inactive⟩
      · exact .inl mirrors
      · cases same
        exact .inr inactive
  have places : (q.setTail copy).places = q.places := places_setTail
  rw [← places] at head links
  refine ⟨head, by rwa [guests_setTail], fun a => ⟨?_, fun way => way.mem_guests head links⟩, fields, links⟩
  rw [guests_setTail]
  exact reached a

theorem duplicatePass_inl (goes : duplicatePass mem host q = .inl r) :
    r = duplicateTd mem host q ∧ isTerminate q.tail = false ∧ (mem (uhciLink q.tail)).link &&& 2 = 0 ∧
      r.linkLoop (mem (uhciLink q.tail)).link = 0 ∧ isActiveTd (mem (uhciLink q.tail)) = true := by
  unfold duplicatePass at goes
  dsimp only at goes
  split_ifs at goes with ends queue loops inactive
  cases goes
  exact ⟨rfl, Bool.eq_false_iff.mpr ends, not_not.mp queue, not_not.mp loops, by simpa using inactive⟩

theorem duplicatePass_next (goesOn : isTerminate q.tail = false) (queue : (mem (uhciLink q.tail)).link &&& 2 = 0)
    (missed : (duplicateTd mem host q).linkLoop (mem (uhciLink q.tail)).link = 0)
    (active : isActiveTd (mem (uhciLink q.tail)) = true) :
    duplicatePass mem host q = .inl (duplicateTd mem host q) := by
  unfold duplicatePass
  dsimp only
  rw [goesOn, if_neg Bool.false_ne_true, if_neg (not_not.mpr queue), if_neg (not_not.mpr missed), active]
  rfl

theorem duplicatePass_inr (leaves : duplicatePass mem host q = .inr (some r)) :
    isTerminate q.tail = true ∧ r = q ∨ ∃ copy, r = (duplicateTd mem host q).setTail copy ∧
      isTerminate q.tail = false ∧ (mem (uhciLink q.tail)).link &&& 2 = 0 ∧
      ((duplicateTd mem host q).linkLoop (mem (uhciLink q.tail)).link = copy ∧ copy ≠ 0 ∨
        isActiveTd (mem (uhciLink q.tail)) = false ∧ copy = 1) := by
  unfold duplicatePass at leaves
  dsimp only at leaves
  split_ifs at leaves with ends queue loops inactive
  · cases leaves
    exact .inl ⟨ends, rfl⟩
  · cases leaves
  · cases leaves
    exact .inr ⟨_, rfl, Bool.eq_false_iff.mpr ends, not_not.mp queue, .inl ⟨rfl, loops⟩⟩
  · cases leaves
    exact .inr ⟨_, rfl, Bool.eq_false_iff.mpr ends, not_not.mp queue, .inr ⟨by simpa using inactive, rfl⟩⟩

theorem Visited.reached {path : List UInt32} (visited : Visited mem element path) :
    ∀ a ∈ path, Reached mem element a := by
  induction visited with
  | first goesOn => exact forall_mem_singleton.mpr (.first goesOn)
  | next _ active goesOn _ ih => exact forall_mem_cons.mpr ⟨.next (ih _ mem_cons_self) active goesOn, ih⟩

theorem Visited.nodup {path : List UInt32} (visited : Visited mem element path) : path.Nodup := by
  induction visited with
  | first => exact nodup_singleton _
  | next _ _ _ fresh ih => exact nodup_cons.mpr ⟨fresh, ih⟩

theorem Reached.masked (reached : Reached mem element a) : uhciLink a = a := by
  cases reached <;> exact uhciLink_uhciLink _

structure Going (mem : UInt32 → Td) (element : UInt32) (q : ShadowQueue) : Prop where
  opened : Open mem element q
  path : ∀ last ∈ q.tds.head?, Visited mem element q.guests ∧ isActiveTd (mem last.guest) = true ∧
    (isTerminate q.tail = false → q.tail ∉ q.guests)

theorem Going.nodup (going : Going mem element q) : q.guests.Nodup := by
  have path := going.path
  obtain ⟨first, tds⟩ := q
  cases tds with
  | nil => exact nodup_nil
  | cons last others => exact (path last rfl).1.nodup

theorem Going.reached (going : Going mem element q) : ∀ a ∈ q.guests, Reached mem element a := by
  have path := going.path
  obtain ⟨first, tds⟩ := q
  cases tds with
  | nil => exact fun a member => absurd member not_mem_nil
  | cons last others => exact (path last rfl).1.reached

theorem Going.visited (host : HostTds) (going : Going mem element q) (followable : Followable mem element)
    (goesOn : isTerminate q.tail = false) : Visited mem element (duplicateTd mem host q).guests := by
  rw [guests_duplicateTd]
  obtain ⟨⟨tail, -, -, -, -⟩, path⟩ := going
  obtain ⟨first, tds⟩ := q
  cases tds with
  | nil =>
    cases tail
    exact .first goesOn
  | cons last others =>
    obtain ⟨visited, active, unseen⟩ := path last rfl
    have same : (ShadowQueue.mk first (last :: others)).tail = (mem last.guest).link := tail
    rw [same] at goesOn unseen ⊢
    refine .next visited active goesOn fun seen => ?_
    have plain := followable.back _ _ visited active goesOn seen
    rw [← plain] at seen
    exact unseen goesOn seen

theorem Going.next (going : Going mem element q) (followable : Followable mem element)
    (goes : duplicatePass mem host q = .inl r) : Going mem element r := by
  obtain ⟨rfl, goesOn, -, missed, active⟩ := duplicatePass_inl goes
  have opened := going.opened.duplicateTd host
  refine ⟨opened, fun last member => ?_⟩
  cases member
  refine ⟨going.visited host followable goesOn, active, fun later => ?_⟩
  have link : (duplicateTd mem host q).tail = (mem (uhciLink q.tail)).link := opened.tail
  rw [link] at later ⊢
  refine linkLoop_missed opened.nonzero missed fun zero => ?_
  rw [zero] at later
  cases later

theorem Going.ends (going : Going mem element q) (followable : Followable mem element)
    (leaves : duplicatePass mem host q = .inr (some r)) : Mirrored mem element r := by
  rcases duplicatePass_inr leaves with ⟨ends, rfl⟩ | ⟨copy, rfl, goesOn, -, exits⟩
  · rw [← setTail_tail (q := r)]
    refine going.opened.mirrored going.nodup going.reached (.inl (.inl ⟨?_, going.opened.tail⟩))
    rw [← going.opened.tail]
    exact ends
  · have visited := going.visited host followable goesOn
    refine (going.opened.duplicateTd host).mirrored visited.nodup visited.reached ?_
    rcases exits with ⟨loop, some'⟩ | ⟨inactive, same⟩
    · have place := linkLoop_place (loop ▸ some')
      have plain := (visited.reached _ (mem_guests_of_places place)).masked
      rw [loop] at place
      refine .inl (.inr ⟨copy, ?_, ?_⟩) <;> rw [guestLink_duplicateTd]
      · rwa [plain]
      · have flags : (0xFFFFFFF0 : UInt32) &&& 4 = 0 := by decide
        rw [← plain, uhciLink, UInt32.and_assoc, flags, UInt32.and_zero, UInt32.or_zero]
    · exact .inr ⟨_, rfl, inactive, same⟩

theorem going_start : Going mem element ⟨element, []⟩ :=
  ⟨⟨rfl, fun some' => absurd rfl some', fun m member => absurd member not_mem_nil,
    fun m member => absurd member not_mem_nil, fun m member => absurd member not_mem_nil⟩,
    fun last member => by cases member⟩

theorem length_guests_le (distinct : q.guests.Nodup) : q.guests.length ≤ 2 ^ 32 := by
  have numbers : (q.guests.map UInt32.toFin).Nodup := distinct.map fun _ _ same => UInt32.toFin_inj.mp same
  have bound := numbers.length_le_card
  rwa [length_map, Fintype.card_fin] at bound

theorem duplicates_of_followable (followable : Followable mem element) : Duplicates mem host element := by
  have shorter (t u : ShadowQueue) (going : Going mem element t) (goes : duplicatePass mem host t = .inl u) :
      2 ^ 32 - u.guests.length < 2 ^ 32 - t.guests.length := by
    have bound := length_guests_le (going.next followable goes).nodup
    obtain ⟨rfl, -⟩ := duplicatePass_inl goes
    rw [guests_duplicateTd, length_cons] at bound ⊢
    omega
  have keeps (t u : ShadowQueue) (going : Going mem element t) (goes : duplicatePass mem host t = .inl u) :
      Going mem element u := going.next followable goes
  obtain ⟨fuel, result, done⟩ : Passes.Ends (duplicatePass mem host) ⟨element, []⟩ :=
    ⟨_, Passes.ends_of_measure (Going mem element) (fun q => 2 ^ 32 - q.guests.length) keeps shorter going_start⟩
  obtain ⟨last, reaches, leaves⟩ := Passes.run_cases done
  have going := reaches.invariant _ keeps going_start
  have started : element &&& 2 = 0 := followable.head
  cases result with
  | some q =>
    refine ⟨fuel, q, ?_, going.ends followable leaves⟩
    unfold duplicate
    rw [if_neg (not_not.mpr started)]
    exact done
  | none =>
    exfalso
    unfold duplicatePass at leaves
    dsimp only at leaves
    split_ifs at leaves with ends queue
    · cases leaves
    · have visited := going.visited host followable (Bool.eq_false_iff.mpr ends)
      exact queue (followable.queues _ (visited.reached _ mem_cons_self))
    · cases leaves
    · cases leaves

theorem guests_result (leaves : duplicatePass mem host q = .inr (some r)) :
    r.guests = q.guests ∨ isTerminate q.tail = false ∧ r.guests = (duplicateTd mem host q).guests := by
  rcases duplicatePass_inr leaves with ⟨-, rfl⟩ | ⟨copy, rfl, goesOn, -, -⟩
  · exact .inl rfl
  · exact .inr ⟨goesOn, guests_setTail⟩

section

variable (reaches : Passes.Reaches (duplicatePass mem host) ⟨element, []⟩ q)
include reaches

theorem reaches_no_queues : ∀ a ∈ q.guests, (mem a).link &&& 2 = 0 := by
  refine reaches.invariant (fun q => ∀ a ∈ q.guests, (mem a).link &&& 2 = 0) ?_
    (fun a member => absurd member not_mem_nil)
  intro t u clear goes
  obtain ⟨rfl, -, queue, -⟩ := duplicatePass_inl goes
  rw [guests_duplicateTd]
  exact forall_mem_cons.mpr ⟨queue, clear⟩

theorem result_no_queues
    (leaves : duplicatePass mem host q = .inr (some r)) : ∀ a ∈ r.guests, (mem a).link &&& 2 = 0 := by
  have clear := reaches_no_queues reaches
  rcases duplicatePass_inr leaves with ⟨-, rfl⟩ | ⟨copy, rfl, -, queue, -⟩
  · exact clear
  · rw [guests_setTail, guests_duplicateTd]
    exact forall_mem_cons.mpr ⟨queue, clear⟩

end

theorem Visited.comes {path : List UInt32} (host : HostTds) (visited : Visited mem element path)
    (queues : ∀ a ∈ path, (mem a).link &&& 2 = 0) :
    ∃ q, Passes.Reaches (duplicatePass mem host) ⟨element, []⟩ q ∧ Open mem element q ∧
      isTerminate q.tail = false ∧ (duplicateTd mem host q).guests = path := by
  induction visited with
  | first goesOn => exact ⟨_, .start, going_start.opened, goesOn, guests_duplicateTd⟩
  | @next a as visited active goesOn fresh ih =>
    obtain ⟨q, reaches, opened, unended, path⟩ := ih fun b member => queues b (mem_cons_of_mem _ member)
    have first : uhciLink q.tail = a := (List.cons.inj ((@guests_duplicateTd mem host _).symm.trans path)).1
    have further := opened.duplicateTd host
    have tail : (duplicateTd mem host q).tail = (mem a).link := by rw [further.tail, guestLink_duplicateTd, first]
    have missed : (duplicateTd mem host q).linkLoop (mem (uhciLink q.tail)).link = 0 := by
      by_contra loops
      have place := linkLoop_place loops
      have seen := mem_guests_of_places place
      rw [path, first] at seen
      have plain := (visited.reached _ seen).masked
      exact fresh (by rwa [plain])
    have goes := duplicatePass_next unended (first ▸ queues a (mem_cons_of_mem _ mem_cons_self)) missed
      (first ▸ active)
    refine ⟨_, reaches.next goes, further, by rw [tail]; exact goesOn, ?_⟩
    rw [guests_duplicateTd, tail, path]

theorem followable_of_duplicates (duplicates : Duplicates mem host element) : Followable mem element := by
  obtain ⟨fuel, q, done, mirrored⟩ := duplicates
  unfold duplicate at done
  split at done
  · cases done
  · rename_i head
    obtain ⟨last, reaches, leaves⟩ := Passes.run_cases done
    have queues : ∀ a, Reached mem element a → (mem a).link &&& 2 = 0 := fun a way =>
      result_no_queues reaches leaves a ((mirrored.complete a).mpr way)
    refine ⟨not_not.mp head, queues, fun a as visited active goesOn seen => ?_⟩
    by_contra flagged
    obtain ⟨t, comes, opened, unended, path⟩ := visited.comes host fun b member => queues b (visited.reached b member)
    have first : uhciLink t.tail = a := (List.cons.inj ((@guests_duplicateTd mem host _).symm.trans path)).1
    have further := opened.duplicateTd host
    have tail : (duplicateTd mem host t).tail = (mem a).link := by rw [further.tail, guestLink_duplicateTd, first]
    -- the link leads back, but its flags hide it from `is_link_loop`
    have missed : (duplicateTd mem host t).linkLoop (mem (uhciLink t.tail)).link = 0 := by
      by_contra loops
      have hidden := mem_guests_of_places (linkLoop_place loops)
      rw [path, first] at hidden
      exact flagged (visited.reached _ hidden).masked.symm
    have goes := duplicatePass_next unended (first ▸ queues a (visited.reached a mem_cons_self)) missed (first ▸ active)
    have twice : ¬(duplicateTd mem host (duplicateTd mem host t)).guests.Nodup := by
      rw [guests_duplicateTd, tail, path]
      exact fun distinct => (nodup_cons.mp distinct).1 seen
    obtain ⟨more, done'⟩ := Passes.Yields.of_reaches ⟨fuel, done⟩ (comes.next goes)
    obtain ⟨final, onward, leaves'⟩ := Passes.run_cases done'
    have bad := onward.invariant (fun s => s = duplicateTd mem host t ∨ ¬s.guests.Nodup) (fun u v bad goes => by
      obtain ⟨rfl, -⟩ := duplicatePass_inl goes
      rcases bad with rfl | repeated
      · exact .inr twice
      · rw [guests_duplicateTd]
        exact .inr fun distinct => repeated (nodup_cons.mp distinct).2) (.inl rfl)
    rcases guests_result leaves' with same | ⟨-, same⟩ <;> have distinct := mirrored.distinct <;>
      rw [same] at distinct
    · rcases bad with rfl | repeated
      · rcases duplicatePass_inr leaves' with ⟨ends, -⟩ | ⟨copy, rfl, -⟩
        · rw [tail, goesOn] at ends
          cases ends
        · rw [guests_setTail, guests_duplicateTd] at same
          exact absurd (congrArg List.length same) (by simp)
      · exact repeated distinct
    · rcases bad with rfl | repeated
      · exact twice distinct
      · rw [guests_duplicateTd] at distinct
        exact repeated (nodup_cons.mp distinct).2

end Steps

/-- The shadow list is built and mirrors the guest's exactly when the link that closes a cycle has no flags. -/
theorem duplicate_exact (mem : UInt32 → Td) (host : HostTds) (element : UInt32) :
    Duplicates mem host element ↔ Followable mem element :=
  ⟨followable_of_duplicates, duplicates_of_followable⟩

def depthFirst (_ : UInt32) : Td := ⟨0x1004, 0x00800000, 0, 0⟩

def upperHalf : HostTds where
  padr k := uhciLink (UInt32.ofNat (16 * k)) ||| 0x80000000
  nonzero k zero := absurd (UInt32.or_eq_zero_iff.mp zero).2 (by decide)
  aligned k := by
    unfold uhciLink
    apply UInt32.toBitVec_inj.mp
    simp only [UInt32.toBitVec_and, UInt32.toBitVec_or, BitVec.and_or_distrib_right, BitVec.and_assoc, BitVec.and_self]
    rfl

theorem depthFirst_endless : (∀ fuel, duplicate depthFirst upperHalf 0x1000 fuel = none) ∧
    ¬Duplicates depthFirst upperHalf 0x1000 := by
  have stays (q : ShadowQueue) (at' : q.tail = 0x1000 ∨ q.tail = 0x1004) (only : ∀ a ∈ q.guests, a = 0x1000) :
      ∃ r, duplicatePass depthFirst upperHalf q = .inl r ∧ (r.tail = 0x1000 ∨ r.tail = 0x1004) ∧
        ∀ a ∈ r.guests, a = 0x1000 := by
    have address : uhciLink q.tail = 0x1000 := by rcases at' with same | same <;> rw [same] <;> decide
    have goesOn : isTerminate q.tail = false := by rcases at' with same | same <;> rw [same] <;> decide
    have guests : ∀ a ∈ (duplicateTd depthFirst upperHalf q).guests, a = 0x1000 := by
      rw [guests_duplicateTd]
      exact forall_mem_cons.mpr ⟨address, only⟩
    refine ⟨_, duplicatePass_next goesOn (by unfold depthFirst; decide) ?_ (by unfold depthFirst; decide), .inr rfl,
      guests⟩
    by_contra loops
    have seen := guests _ (mem_guests_of_places (linkLoop_place loops))
    exact absurd seen (by unfold depthFirst; decide)
  have endless := @Passes.not_ends _ _ (duplicatePass depthFirst upperHalf) ⟨0x1000, []⟩
    (fun q => (q.tail = 0x1000 ∨ q.tail = 0x1004) ∧ ∀ a ∈ q.guests, a = 0x1000)
    (fun q here => stays q here.1 here.2)
    ⟨.inl rfl, fun a member => absurd member not_mem_nil⟩
  have never (fuel : ℕ) : duplicate depthFirst upperHalf 0x1000 fuel = none := by
    unfold duplicate
    rw [if_neg (by decide)]
    exact Option.eq_none_iff_forall_ne_some.mpr fun result done => endless ⟨fuel, result, done⟩
  refine ⟨never, ?_⟩
  rintro ⟨fuel, q, done, -⟩
  rw [never fuel] at done
  cases done

end DisasVisor.Usb.Uhci
