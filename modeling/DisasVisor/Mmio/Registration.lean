import Mathlib.Data.List.Nodup
import DisasVisor.Lib.Transitions
import DisasVisor.Mmio.Ranges

/-!
The lists of `core/mmio.c` over whole runs of registrations: which handles they hold, and in which
order.
-/

namespace DisasVisor.Mmio

open Function Searches Transitions List

inductive MmioEvent where
  | register (p : Nat) (gphys : UInt64) (len : UInt32) (unlockedHandler flushFails : Bool)
  | unregister (p : Nat) (held : Bool)
  | unlock (held : Bool)

namespace MmioData

def Registered (s : MmioData) (p : Nat) : Prop := p ∈ s.handle ∧ (s.handles p).unregistered = false

inductive Step (s : MmioData) : MmioEvent → MmioData → Prop
  | register {p gphys len unlockedHandler flushFails} : p ∉ s.handle →
      Step s (.register p gphys len unlockedHandler flushFails)
        (s.register p gphys len unlockedHandler flushFails)
  | unregister {p held} : s.Registered p → Step s (.unregister p held) (s.unregister p held)
  | unlock {held} : Step s (.unlock held) (s.unlock held)

def PlainEvent : MmioEvent → Prop
  | .register _ gphys len _ _ => Plain gphys len
  | _ => True

def PlainStep (s : MmioData) (event : MmioEvent) (t : MmioData) : Prop := Step s event t ∧ PlainEvent event

def RangesDisjoint (s : MmioData) : Prop :=
  ∀ p q, s.Registered p → s.Registered q → p ≠ q → ∀ x, (s.handles p).Covers x → ¬(s.handles q).Covers x

structure Listed (s : MmioData) : Prop where
  nodup : s.handle.Nodup
  plain : ∀ p ∈ s.handle, Plain (s.handles p).gphys (s.handles p).len
  disjoint : s.RangesDisjoint
  sorted : ∀ i, (s.mmio i).Pairwise fun p q =>
    (s.handles p).gphys.toNat ≤ (s.handles q).gphys.toNat
  distinct : ∀ i, (s.mmio i).Nodup
  lists : ∀ i p, p ∈ s.mmio i ↔ p ∈ s.handle ∧ (s.handles p).Meets i

/-- Where a handle waits to be taken out, `mmio_unlock` knows of it. -/
def Flagged (s : MmioData) : Prop := ∀ p ∈ s.handle, (s.handles p).unregistered = true → s.unregisterFlag = true

variable {s t : MmioData} {p q : Nat}

theorem foldl_lists {step : MmioData → Nat → MmioData} {f : List Nat → List Nat}
    (same : ∀ t i, t.handles = s.handles →
      step t i = { t with mmio := update t.mmio i (f (t.mmio i)) })
    {buckets : List Nat} (nodup : buckets.Nodup) : buckets.foldl step s =
      { s with mmio := fun i => if i ∈ buckets then f (s.mmio i) else s.mmio i } := by
  induction buckets generalizing s with
  | nil => simp
  | cons i buckets ih =>
    rw [nodup_cons] at nodup
    rw [foldl_cons, same s i rfl]
    refine (@ih { s with mmio := update s.mmio i (f (s.mmio i)) } same nodup.2).trans ?_
    congr 1
    funext j
    by_cases first : j = i
    · subst first
      simp [nodup.1]
    · simp [first]

theorem addAll_eq (s : MmioData) (gphys : UInt64) (len : UInt32) (p : Nat) :
    s.addAll gphys len p = { s with
      mmio := fun i =>
        if i ∈ scan gphys len then
          insertBefore (fun d => decide ((s.handles p).gphys < (s.handles d).gphys)) p (s.mmio i)
        else s.mmio i } := by
  refine foldl_lists ?_ (nodup_scan gphys len)
  intro t i same
  rw [add, same]

theorem delAll_eq (s : MmioData) (gphys : UInt64) (len : UInt32) (p : Nat) :
    s.delAll gphys len p = { s with
      mmio := fun i => if i ∈ scan gphys len then (s.mmio i).erase p else s.mmio i } :=
  foldl_lists (f := fun list => list.erase p) (fun _ _ _ => rfl) (nodup_scan gphys len)

theorem Listed.mmio_delAll (listed : Listed s) (member : p ∈ s.handle) (i : Nat) :
    (if i ∈ scan (s.handles p).gphys (s.handles p).len then (s.mmio i).erase p else s.mmio i) =
      (s.mmio i).erase p := by
  split
  · rfl
  · rename_i outside
    rw [mem_scan (listed.plain p member)] at outside
    rw [erase_of_not_mem]
    exact fun inList => outside ((listed.lists i p).mp inList).2

theorem remove_eq (listed : Listed s) (member : p ∈ s.handle) : s.remove p =
    { s with handle := s.handle.erase p, mmio := fun i => (s.mmio i).erase p } := by
  rw [remove, delAll_eq]
  congr 1
  funext i
  exact listed.mmio_delAll member i

theorem Listed.remove (listed : Listed s) (member : p ∈ s.handle) : Listed (s.remove p) := by
  have still : ∀ q, q ∈ s.handle.erase p ↔ q ≠ p ∧ q ∈ s.handle := fun q =>
    listed.nodup.mem_erase_iff
  rw [remove_eq listed member]
  refine ⟨listed.nodup.erase p, ?_, ?_, ?_, ?_, ?_⟩
  · intro q old
    exact listed.plain q ((still q).mp old).2
  · rintro q r ⟨qOld, qRegistered⟩ ⟨rOld, rRegistered⟩ ne
    exact listed.disjoint q r ⟨((still q).mp qOld).2, qRegistered⟩ ⟨((still r).mp rOld).2, rRegistered⟩ ne
  · intro i
    exact (listed.sorted i).sublist erase_sublist
  · intro i
    exact (listed.distinct i).erase p
  · intro i q
    rw [(listed.distinct i).mem_erase_iff, still, listed.lists]
    exact and_assoc.symm

theorem covers_marked (s : MmioData) (p q : Nat) (x : Nat) :
    ((s.unregister p true).handles q).Covers x ↔ (s.handles q).Covers x := by
  by_cases same : q = p
  · subst same
    simp [unregister, MmioHandle.Covers]
  · simp [unregister, update_of_ne same]

theorem Listed.mark (listed : Listed s) : Listed (s.unregister p true) := by
  have range : ∀ q, ((s.unregister p true).handles q).gphys = (s.handles q).gphys ∧
      ((s.unregister p true).handles q).len = (s.handles q).len := by
    intro q
    by_cases same : q = p
    · subst same
      simp [unregister]
    · simp [unregister, update_of_ne same]
  have registered : ∀ q, (s.unregister p true).Registered q → s.Registered q := by
    rintro q ⟨member, still⟩
    refine ⟨member, ?_⟩
    by_cases same : q = p
    · subst same
      simp [unregister] at still
    · simpa [unregister, update_of_ne same] using still
  refine ⟨listed.nodup, ?_, ?_, ?_, listed.distinct, ?_⟩
  · intro q member
    rw [(range q).1, (range q).2]
    exact listed.plain q member
  · intro q r qRegistered rRegistered ne x
    rw [covers_marked, covers_marked]
    exact listed.disjoint q r (registered q qRegistered) (registered r rRegistered) ne x
  · intro i
    refine (listed.sorted i).imp ?_
    intro q r
    rw [(range q).1, (range r).1]
    exact fun le => le
  · intro i q
    rw [MmioHandle.Meets]
    simp only [covers_marked]
    exact listed.lists i q

theorem Listed.sweep {rest : List Nat} (listed : Listed s) (nodup : rest.Nodup)
    (inside : ∀ p ∈ rest, p ∈ s.handle) : Listed (sweep rest s) ∧
      ∀ p ∈ (MmioData.sweep rest s).handle, p ∈ s.handle ∧
        ((MmioData.sweep rest s).handles p).unregistered = (s.handles p).unregistered ∧
        (p ∈ rest → (s.handles p).unregistered = false) := by
  induction rest generalizing s with
  | nil => exact ⟨listed, fun p member => ⟨member, rfl, by simp⟩⟩
  | cons q rest ih =>
    rw [nodup_cons] at nodup
    have qMember := inside q mem_cons_self
    rw [MmioData.sweep]
    cases gone : (s.handles q).unregistered with
    | false =>
      simp only [Bool.false_eq_true, if_false]
      obtain ⟨after, kept⟩ := ih listed nodup.2 fun p member =>
        inside p (mem_cons_of_mem q member)
      refine ⟨after, fun p member => ?_⟩
      obtain ⟨old, same, met⟩ := kept p member
      refine ⟨old, same, fun inRest => ?_⟩
      rcases mem_cons.mp inRest with rfl | later
      · exact gone
      · exact met later
    | true =>
      simp only [if_true]
      have still : ∀ p, p ∈ s.handle.erase q ↔ p ≠ q ∧ p ∈ s.handle := fun p => listed.nodup.mem_erase_iff
      have removed := remove_eq listed qMember
      have handles : (s.remove q).handles = s.handles := by rw [removed]
      have handle : (s.remove q).handle = s.handle.erase q := by rw [removed]
      obtain ⟨after, kept⟩ := ih (listed.remove qMember) nodup.2 (by
        intro p member
        rw [handle, still]
        refine ⟨?_, inside p (mem_cons_of_mem q member)⟩
        rintro rfl
        exact nodup.1 member)
      rw [handles, handle] at kept
      refine ⟨after, fun p member => ?_⟩
      obtain ⟨old, same, met⟩ := kept p member
      rw [still] at old
      refine ⟨old.2, same, fun inRest => ?_⟩
      rcases mem_cons.mp inRest with rfl | later
      · exact absurd rfl old.1
      · exact met later

theorem Listed.unlock (listed : Listed s) (flagged : Flagged s) (held : Bool) :
    Listed (s.unlock held) ∧ Flagged (s.unlock held) ∧
      (held = false → ∀ p ∈ (s.unlock held).handle, (s.unlock held).Registered p) := by
  unfold MmioData.unlock
  by_cases sweeps : s.unregisterFlag ∧ ¬held
  · rw [if_pos sweeps]
    have cleared : Listed { s with unregisterFlag := false } :=
      ⟨listed.nodup, listed.plain, listed.disjoint, listed.sorted, listed.distinct, listed.lists⟩
    obtain ⟨after, kept⟩ := cleared.sweep listed.nodup fun p member => member
    have registered : ∀ p ∈ (MmioData.sweep s.handle { s with unregisterFlag := false }).handle,
        (MmioData.sweep s.handle { s with unregisterFlag := false }).Registered p := by
      intro p member
      obtain ⟨old, same, met⟩ := kept p member
      exact ⟨member, same.trans (met old)⟩
    refine ⟨after, ?_, fun _ => registered⟩
    intro p member gone
    rw [(registered p member).2] at gone
    cases gone
  · rw [if_neg sweeps]
    refine ⟨listed, flagged, ?_⟩
    rintro rfl p member
    refine ⟨member, ?_⟩
    cases gone : (s.handles p).unregistered with
    | false => rfl
    | true => exact absurd ⟨flagged p member gone, by simp⟩ sweeps

variable {gphys : UInt64} {len : UInt32}

theorem free_of_rangecheck (listed : Listed s) (plain : Plain gphys len)
    (free : ¬s.handle.any (fun q => (rangecheck (s.handles q) gphys len).isSome)) (registered : s.Registered q)
    {x : Nat} (low : gphys.toNat ≤ x) (high : x < gphys.toNat + len.toNat) : ¬(s.handles q).Covers x := by
  rintro ⟨qLow, qHigh⟩
  simp only [any_eq_true, not_exists, not_and] at free
  have notFound := free q registered.1
  rw [Bool.not_eq_true, Option.isSome_eq_false_iff, Option.isNone_iff_eq_none,
    rangecheck_none registered.2 (listed.plain q registered.1) plain] at notFound
  omega

def inserted (s : MmioData) (p : Nat) (h : MmioHandle) : MmioData :=
  { s with
    handles := update s.handles p h
    handle := s.handle ++ [p]
    mmio := fun i =>
      if i ∈ scan h.gphys h.len then
        insertBefore (fun d => decide (h.gphys < (update s.handles p h d).gphys)) p (s.mmio i)
      else s.mmio i }

theorem Listed.inserted {h : MmioHandle} (listed : Listed s) (fresh : p ∉ s.handle) (plain : Plain h.gphys h.len)
    (apart : ∀ q, s.Registered q → ∀ x, h.Covers x → ¬(s.handles q).Covers x) : Listed (s.inserted p h) := by
  have other : ∀ q, q ∈ s.handle → (s.inserted p h).handles q = s.handles q := by
    intro q member
    refine update_of_ne ?_ _ _
    rintro rfl
    exact fresh member
  have self : (s.inserted p h).handles p = h := update_self _ _ _
  have members : ∀ q, q ∈ (s.inserted p h).handle ↔ q ∈ s.handle ∨ q = p := by simp [MmioData.inserted]
  have old : ∀ q i, q ∈ s.mmio i → q ∈ s.handle := fun q i member => ((listed.lists i q).mp member).1
  have perm : ∀ i, i ∈ scan h.gphys h.len → ((s.inserted p h).mmio i).Perm (p :: s.mmio i) := by
    intro i inScan
    simp only [MmioData.inserted, if_pos inScan]
    exact insertBefore_perm _ _ _
  have same : ∀ i, i ∉ scan h.gphys h.len → (s.inserted p h).mmio i = s.mmio i := fun i outside =>
    if_neg outside
  refine ⟨?_, ?_, ?_, ?_, ?_, ?_⟩
  · exact nodup_append.mpr ⟨listed.nodup, nodup_singleton p, by
      intro q member r single equal
      rw [mem_singleton] at single
      rw [equal, single] at member
      exact fresh member⟩
  · intro q member
    rcases (members q).mp member with before | rfl
    · rw [other q before]
      exact listed.plain q before
    · rw [self]
      exact plain
  · rintro q r ⟨qMember, qRegistered⟩ ⟨rMember, rRegistered⟩ ne x
    rcases (members q).mp qMember with qOld | rfl <;> rcases (members r).mp rMember with rOld | rfl
    · rw [other q qOld] at qRegistered ⊢
      rw [other r rOld] at rRegistered ⊢
      exact listed.disjoint q r ⟨qOld, qRegistered⟩ ⟨rOld, rRegistered⟩ ne x
    · rw [other q qOld] at qRegistered ⊢
      rw [self]
      exact fun covers hCovers => apart q ⟨qOld, qRegistered⟩ x hCovers covers
    · rw [other r rOld] at rRegistered ⊢
      rw [self]
      exact apart r ⟨rOld, rRegistered⟩ x
    · exact absurd rfl ne
  · intro i
    have oldSorted : (s.mmio i).Pairwise fun q r =>
        ((s.inserted p h).handles q).gphys.toNat ≤ ((s.inserted p h).handles r).gphys.toNat := by
      refine (listed.sorted i).imp_of_mem ?_
      intro q r qMember rMember le
      rwa [other q (old q i qMember), other r (old r i rMember)]
    by_cases inScan : i ∈ scan h.gphys h.len
    · have insertion := insertBefore_sorted
        (fun q => ((s.inserted p h).handles q).gphys.toNat) p oldSorted
      simp only [self] at insertion
      simpa [MmioData.inserted, inScan, UInt64.lt_iff_toNat_lt] using insertion
    · rw [same i inScan]
      exact oldSorted
  · intro i
    by_cases inScan : i ∈ scan h.gphys h.len
    · rw [(perm i inScan).nodup_iff, nodup_cons]
      exact ⟨fun member => fresh (old p i member), listed.distinct i⟩
    · rw [same i inScan]
      exact listed.distinct i
  · intro i q
    have scanned := mem_scan plain i
    by_cases isNew : q = p
    · subst isNew
      have absent : q ∉ s.mmio i := fun member => fresh (old q i member)
      by_cases inScan : i ∈ scan h.gphys h.len
      · rw [(perm i inScan).mem_iff, members, self, ← scanned]
        simp [inScan]
      · rw [same i inScan, members, self, ← scanned]
        simp [inScan, absent]
    · have range : q ∈ s.handle → (((s.inserted p h).handles q).Meets i ↔ (s.handles q).Meets i) :=
        fun member => by rw [other q member]
      have list : q ∈ (s.inserted p h).mmio i ↔ q ∈ s.mmio i := by
        by_cases inScan : i ∈ scan h.gphys h.len
        · rw [(perm i inScan).mem_iff, mem_cons]
          simp [isNew]
        · rw [same i inScan]
      rw [list, members, listed.lists]
      simp only [isNew, or_false]
      exact and_congr_right fun member => (range member).symm

theorem Listed.register (listed : Listed s) {unlockedHandler flushFails : Bool} (fresh : p ∉ s.handle)
    (plain : Plain gphys len) : Listed (s.register p gphys len unlockedHandler flushFails) := by
  unfold MmioData.register
  by_cases meets : s.handle.any (fun q => (rangecheck (s.handles q) gphys len).isSome)
  · rw [if_pos meets]
    exact listed
  · rw [if_neg meets]
    cases flushFails with
    | true => exact listed
    | false =>
      simp only [Bool.false_eq_true, if_false, addAll_eq, update_self]
      refine @Listed.inserted s p {
        gphys := gphys
        len := len
        unregistered := false
        unlockedHandler := unlockedHandler } listed fresh plain ?_
      rintro q registered x ⟨low, high⟩
      exact free_of_rangecheck listed plain meets registered low high

theorem Flagged.remove (listed : Listed s) (flagged : Flagged s) (member : p ∈ s.handle) : Flagged (s.remove p) := by
  rw [remove_eq listed member]
  exact fun q old => flagged q (mem_of_mem_erase old)

theorem Flagged.register (flagged : Flagged s) (unlockedHandler flushFails : Bool) :
    Flagged (s.register p gphys len unlockedHandler flushFails) := by
  unfold MmioData.register
  split
  · exact flagged
  · split
    · exact flagged
    · rw [addAll_eq]
      intro q member gone
      by_cases isNew : q = p
      · subst isNew
        simp at gone
      · simp only [update_of_ne isNew, mem_append, mem_singleton, isNew,
          or_false] at member gone
        exact flagged q member gone

theorem Listed.step (listed : Listed s) (flagged : Flagged s) {event : MmioEvent}
    (step : PlainStep s event t) : Listed t ∧ Flagged t := by
  obtain ⟨step, plain⟩ := step
  cases step with
  | @register p gphys len unlockedHandler flushFails fresh =>
    exact ⟨listed.register fresh plain, flagged.register unlockedHandler flushFails⟩
  | @unregister p held registered =>
    cases held with
    | true => exact ⟨listed.mark, fun _ _ _ => rfl⟩
    | false => exact ⟨listed.remove registered.1, flagged.remove listed registered.1⟩
  | unlock =>
    obtain ⟨after, kept, -⟩ := listed.unlock flagged _
    exact ⟨after, kept⟩

theorem listed_init : Listed mmioInit ∧ Flagged mmioInit := by
  refine ⟨⟨nodup_nil, ?_, ?_, ?_, ?_, ?_⟩, ?_⟩
  · intro p member
    cases member
  · rintro p q ⟨member, -⟩
    cases member
  · exact fun i => List.Pairwise.nil
  · exact fun i => nodup_nil
  · intro i p
    simp [mmioInit]
  · intro p member
    cases member

theorem listed_run {events : List MmioEvent} (run : Run PlainStep mmioInit events s) : Listed s ∧ Flagged s :=
  run.keeps (fun s => Listed s ∧ Flagged s) (fun _ _ _ step listed => listed.1.step listed.2 step) listed_init

end MmioData

end DisasVisor.Mmio
