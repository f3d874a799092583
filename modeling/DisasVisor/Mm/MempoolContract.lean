import DisasVisor.Mm.Mempool

/-!
The contract of a memory pool over whole runs, while the other users of the heap run too.
-/

namespace DisasVisor.Mm

open Function Searches Integers Transitions MempoolBlockList Mempool List
open Option (some.injEq)

inductive PoolEvent where
  | allocmem (len : UInt32)
  | freemem (virt : Nat)
  | other (event : HeapEvent)

def HeapEvent.Spares (virt : Nat) : HeapEvent → Prop
  | .realloc v _ => v ≠ virt
  | .free v => v ≠ virt
  | .freePage v => v ≠ virt
  | _ => True

namespace HeapState

theorem Gets.live_kept {s t : HeapState} {len r v u : Nat} (gets : Gets s len r t)
    (isLive : s.live v = some u) : t.live v = some u := by
  obtain ⟨x, -, live⟩ := gets.size
  have other : v ≠ r := by
    rintro rfl
    rw [gets.fresh] at isLive
    cases isLive
  rw [live, update_of_ne other, isLive]

theorem live_kept {s t : HeapState} {event : HeapEvent} {v u : Nat}
    (ordered : Ordered s.heap s.live none) (fits : FitStep s event t) (isLive : s.live v = some u)
    (spares : event.Spares v) : t.live v = some u := by
  obtain ⟨⟨r, steps⟩, fits⟩ := fits
  have result := (step_spec ordered fits steps).2.1
  have released : ∀ w, w ≠ v → update s.live w none v = some u := by
    intro w other
    rw [update_of_ne other.symm, isLive]
  cases event with
  | alloc len => exact Gets.live_kept result isLive
  | allocPages n => exact Gets.live_kept result isLive
  | realloc virt len =>
    rcases result with ⟨-, -, -, live⟩ | ⟨-, gets⟩ | ⟨-, -, live⟩ | ⟨old, x, oldLive, -, place, -, live, -⟩
    · rw [live, isLive]
    · exact gets.live_kept isLive
    · rw [live, released virt spares]
    · have other : v ≠ r := by
        rintro rfl
        rcases place with same | fresh
        · exact spares same.symm
        · rw [fresh] at isLive
          cases isLive
      rw [live, update_of_ne other, released virt spares]
  | free virt => rw [show t.live = _ from result, released virt spares]
  | freePage virt => rw [show t.live = _ from result, released virt spares]
  | store address byte => rw [show t.live = _ from result, isLive]

end HeapState

namespace PoolState

def Foreign (s : PoolState) (event : HeapEvent) : Prop := ∀ p ∈ s.pool.block, event.Spares p.p

/-- The steps that return; `mempool_freemem` gets live pointers only. -/
inductive Step (s : PoolState) : PoolEvent → PoolState → Prop
  | allocmem {len t r} : s.allocmem len = some (t, r) → Step s (.allocmem len) t
  | freemem {virt t} : s.live virt ≠ none → s.freemem virt = some t → Step s (.freemem virt) t
  | other {event mem} : HeapState.FitStep s.mem event mem → s.Foreign event →
      Step s (.other event) { s with mem := mem }

/-- The part that `mempool_allocmem` takes has exactly the length that is asked for: the first
part that is large enough has it, or there is none and a new block has it. -/
def Exact (mp : Mempool) (len : UInt32) : Prop :=
  match (mp.block.flatMap fun p => p.free).find? (fun q => len ≤ q.len.toUInt32) with
  | some q => q.len.toUInt32 = len
  | none => ∃ k, k < 19 ∧ mp.numpages.toUInt32.toNat ≤ 2 ^ k ∧ len.toNat = 2 ^ k * 4096

def Fits (s : PoolState) : PoolEvent → Prop
  | .allocmem len => len = 0 ∨ Exact s.pool len
  | _ => True

def FitStep (s : PoolState) (event : PoolEvent) (t : PoolState) : Prop := Step s event t ∧ Fits s event

def freeBlocks (mp : Mempool) : Nat := mp.block.countP fun p => p.alloc.isEmpty

structure Sound (s : PoolState) : Prop where
  partitioned : ∀ p ∈ s.pool.block, p.Partitioned
  joined : ∀ p ∈ s.pool.block, p.Joined
  requested : ∀ v len, s.live v = some len → ∃ p ∈ s.pool.block, ∃ q ∈ p.alloc, p.address q = v ∧ q.len.toUInt32 = len
  disjoint : ∀ v len w len', s.live v = some len → s.live w = some len' → v ≠ w →
    HeapState.Disjoint v len.toNat w len'.toNat
  keep : s.pool.keep.toInt = freeBlocks s.pool
  kept : (freeBlocks s.pool : Int) ≤ s.pool.numkeeps.toInt
  frees : ∀ v, s.live v ≠ none → ∃ t, s.freemem v = some t

def SoundStep (s : PoolState) (event : PoolEvent) (t : PoolState) : Prop := Step s event t ∧ Sound t

def Backed (mem : HeapState) (p : Nat) (len : Int32) : Prop :=
  0 < len.toInt ∧ p % pagesize = 0 ∧ ∃ u, mem.live p = some u ∧ len.toInt ≤ u

structure Whole (s : PoolState) : Prop where
  ordered : Ordered s.mem.heap s.mem.live none
  numpages : ∃ j, j < 19 ∧ s.pool.numpages.toUInt32 = doubled j
  single : ∀ p ∈ s.pool.block, p.Taken ∨ p.Untouched
  pages : ∀ p ∈ s.pool.block, Backed s.mem p.p p.len
  nodup : (s.pool.block.map fun p => p.p).Nodup
  live : ∀ v len, s.live v = some len ↔ ∃ p ∈ s.pool.block, p.Taken ∧ p.p = v ∧ p.len.toUInt32 = len
  keep : s.pool.keep.toInt = freeBlocks s.pool
  kept : (freeBlocks s.pool : Int) ≤ s.pool.numkeeps.toInt

variable {s t : PoolState} {p q : MempoolBlockList} {front back : List MempoolBlockList} {len : UInt32} {r virt : Nat}

theorem joined_of_single (positive : 0 < p.len.toInt) (single : p.Taken ∨ p.Untouched) : p.Joined := by
  intro q member q' member'
  rcases single with taken | untouched
  · rw [taken.2] at member
    cases member
  · rw [untouched.2, mem_singleton] at member member'
    have zero : (0 : Int32).toInt = 0 := rfl
    rw [member, member']
    simp only [whole, zero]
    omega

theorem join_taken (q : MempoolList) : join [] q = [q] := rfl

theorem freemem_taken (whole : Whole s) (blocks : s.pool.block = front ++ p :: back)
    (taken : p.Taken) : s.freemem p.p =
      release { s with live := update s.live p.p none } front { p with alloc := [], free := [p.whole] } back := by
  have member : p ∈ s.pool.block := by simp [blocks]
  obtain ⟨positive, -, u, pLive, size⟩ := whole.pages p member
  have found : locate (fun b : MempoolBlockList => decide (b.p ≤ p.p ∧ (p.p : Int) < b.p + b.len.toInt))
      s.pool.block = some (front, p, back) := by
    rw [blocks]
    refine locate_only (by simpa using positive) ?_
    intro b before
    have bMember : b ∈ s.pool.block := by simp [blocks, before]
    obtain ⟨bPositive, -, v, bLive, bSize⟩ := whole.pages b bMember
    have ne : b.p ≠ p.p := by
      intro same
      have nodup := whole.nodup
      rw [blocks, map_append, nodup_append] at nodup
      exact nodup.2.2 b.p (mem_map.mpr ⟨b, before, rfl⟩) p.p (by simp) same
    have apart := HeapState.sound_disjoint whole.ordered bLive pLive ne
    unfold HeapState.Disjoint at apart
    simp only [decide_eq_false_iff_not, not_and]
    omega
  have part : locate (fun q => decide (p.address q = p.p)) p.alloc = some ([], p.whole, []) := by
    simp [taken.1, locate, address_whole]
  rw [freemem, found]
  simp only [part, taken.2, join_taken, nil_append]

theorem release_single (free : p.free = [p.whole]) (empty : p.alloc = []) :
    release s front p back =
      if s.pool.keep < s.pool.numkeeps then
        some { s with pool := { s.pool with block := front ++ p :: back, keep := s.pool.keep + 1 } }
      else
        some { s with
          pool := { s.pool with block := front ++ back }
          mem := {
            heap := s.mem.heap.freePage p.p
            live := update s.mem.live p.p none } } := by
  rw [release, free]
  simp [whole, empty]

theorem Whole.sound (whole : Whole s) : Sound s := by
  refine ⟨?_, ?_, ?_, ?_, whole.keep, whole.kept, ?_⟩
  · intro p member
    have positive := (whole.pages p member).1
    rcases whole.single p member with taken | untouched
    · exact partitioned_of_single positive taken.single
    · exact partitioned_of_single positive untouched.single
  · intro p member
    exact joined_of_single (whole.pages p member).1 (whole.single p member)
  · intro v len isLive
    obtain ⟨p, member, taken, address, size⟩ := (whole.live v len).mp isLive
    refine ⟨p, member, p.whole, ?_, ?_, size⟩
    · rw [taken.1]
      exact mem_singleton_self _
    · rw [address_whole, address]
  · intro v len w len' vLive wLive ne
    obtain ⟨p, pMember, pTaken, rfl, rfl⟩ := (whole.live v len).mp vLive
    obtain ⟨q, qMember, qTaken, rfl, rfl⟩ := (whole.live w len').mp wLive
    obtain ⟨pPositive, -, u, pPages, pSize⟩ := whole.pages p pMember
    obtain ⟨qPositive, -, x, qPages, qSize⟩ := whole.pages q qMember
    have apart := HeapState.sound_disjoint whole.ordered pPages qPages ne
    have pLen := (toNat_toUInt32 (Int.le_of_lt pPositive)).1
    have qLen := (toNat_toUInt32 (Int.le_of_lt qPositive)).1
    unfold HeapState.Disjoint at apart ⊢
    omega
  · intro v isLive
    obtain ⟨len, liveLen⟩ := Option.ne_none_iff_exists'.mp isLive
    obtain ⟨p, member, taken, rfl, -⟩ := (whole.live v len).mp liveLen
    obtain ⟨front, back, blocks⟩ := append_of_mem member
    rw [freemem_taken whole blocks taken, release_single rfl rfl]
    split
    · exact ⟨_, rfl⟩
    · exact ⟨_, rfl⟩

variable {mem : HeapState}

theorem Whole.other (whole : Whole s) {event : HeapEvent} (fits : HeapState.FitStep s.mem event mem)
    (foreign : s.Foreign event) : Whole { s with mem := mem } := by
  have after : Ordered mem.heap mem.live none := by
    obtain ⟨⟨r, steps⟩, eventFits⟩ := fits
    exact (HeapState.step_spec whole.ordered eventFits steps).1
  refine ⟨after, whole.numpages, whole.single, ?_, whole.nodup, whole.live, whole.keep, whole.kept⟩
  intro p member
  obtain ⟨positive, aligned, u, isLive, size⟩ := whole.pages p member
  exact ⟨positive, aligned, u, HeapState.live_kept whole.ordered fits isLive (foreign p member), size⟩

def freeIn (blocks : List MempoolBlockList) : Nat := blocks.countP fun p => p.alloc.isEmpty

theorem freeBlocks_taken {mp : Mempool} (blocks : mp.block = front ++ p :: back) (taken : p.Taken) :
    freeBlocks mp = freeIn front + freeIn back := by
  rw [freeBlocks, blocks, countP_append, countP_cons, taken.1]
  rfl

theorem freeBlocks_untouched {mp : Mempool} (blocks : mp.block = front ++ p :: back)
    (untouched : p.Untouched) : freeBlocks mp = freeIn front + freeIn back + 1 := by
  rw [freeBlocks, blocks, countP_append, countP_cons, untouched.1]
  rfl

theorem toInt_pred {keep : Int32} (positive : 0 < keep.toInt) : (keep - 1).toInt = keep.toInt - 1 := by
  have one : (1 : Int32).toInt = 1 := rfl
  have bound := keep.toInt_lt
  rw [Int32.toInt_sub, one, Int.bmod_eq_of_le (by omega) (by omega)]

theorem toInt_succ {keep limit : Int32} (nonneg : 0 ≤ keep.toInt) (less : keep < limit) :
    (keep + 1).toInt = keep.toInt + 1 := by
  have one : (1 : Int32).toInt = 1 := rfl
  have bound := limit.toInt_lt
  rw [Int32.lt_iff_toInt_lt] at less
  rw [Int32.toInt_add, one, Int.bmod_eq_of_le (by omega) (by omega)]

structure Exchange (s t : PoolState) (front middle middle' back : List MempoolBlockList) : Prop where
  before : s.pool.block = front ++ middle ++ back
  after : t.pool.block = front ++ middle' ++ back
  ordered : Ordered t.mem.heap t.mem.live none
  numpages : t.pool.numpages = s.pool.numpages
  single : ∀ p ∈ middle', p.Taken ∨ p.Untouched
  pages : ∀ p ∈ middle', Backed t.mem p.p p.len
  pagesKept : ∀ p ∈ front ++ back, ∀ u, s.mem.live p.p = some u → t.mem.live p.p = some u
  nodup : (t.pool.block.map fun p => p.p).Nodup
  live : ∀ v len, t.live v = some len ↔
    (∃ p ∈ middle', p.Taken ∧ p.p = v ∧ p.len.toUInt32 = len) ∨
      (s.live v = some len ∧ ∀ p ∈ middle, p.p ≠ v)
  keep : t.pool.keep.toInt = freeBlocks t.pool
  kept : (freeBlocks t.pool : Int) ≤ t.pool.numkeeps.toInt

theorem Whole.apart {middle : List MempoolBlockList} (whole : Whole s)
    (before : s.pool.block = front ++ middle ++ back) (member : p ∈ front ++ back) :
    p ∈ s.pool.block ∧ ∀ q ∈ middle, q.p ≠ p.p := by
  have nodup := whole.nodup
  rw [before, map_append, map_append, nodup_append, nodup_append] at nodup
  obtain ⟨⟨-, -, frontMiddle⟩, -, frontBack⟩ := nodup
  rw [before]
  rcases mem_append.mp member with inFront | inBack
  · refine ⟨by simp [inFront], fun q inMiddle same => ?_⟩
    exact frontMiddle p.p (mem_map_of_mem inFront) q.p (mem_map_of_mem inMiddle) same.symm
  · refine ⟨by simp [inBack], fun q inMiddle same => ?_⟩
    refine frontBack q.p ?_ p.p (mem_map_of_mem inBack) same
    exact mem_append_right _ (mem_map_of_mem inMiddle)

theorem Whole.exchange {middle middle' : List MempoolBlockList} (whole : Whole s)
    (exchange : Exchange s t front middle middle' back) : Whole t := by
  have others : ∀ p ∈ t.pool.block, p ∈ middle' ∨ p ∈ front ++ back := by
    intro p member
    rw [exchange.after] at member
    simp only [mem_append] at member ⊢
    tauto
  refine ⟨exchange.ordered, by rw [exchange.numpages]; exact whole.numpages, ?_, ?_,
    exchange.nodup, ?_, exchange.keep, exchange.kept⟩
  · intro p member
    rcases others p member with new | old
    · exact exchange.single p new
    · exact whole.single p (whole.apart exchange.before old).1
  · intro p member
    rcases others p member with new | old
    · exact exchange.pages p new
    · obtain ⟨positive, aligned, u, isLive, size⟩ :=
        whole.pages p (whole.apart exchange.before old).1
      exact ⟨positive, aligned, u, exchange.pagesKept p old u isLive, size⟩
  · intro v len
    rw [exchange.live, exchange.after]
    constructor
    · rintro (⟨p, new, taken⟩ | ⟨isLive, elsewhere⟩)
      · exact ⟨p, by simp [new], taken⟩
      · obtain ⟨p, member, taken, address, size⟩ := (whole.live v len).mp isLive
        have outside : p ∉ middle := fun inMiddle => elsewhere p inMiddle address
        rw [exchange.before] at member
        refine ⟨p, ?_, taken, address, size⟩
        simp only [mem_append] at member ⊢
        tauto
    · rintro ⟨p, member, taken, rfl, size⟩
      rcases others p (by rw [exchange.after]; exact member) with new | old
      · exact .inl ⟨p, new, taken, rfl, size⟩
      · obtain ⟨old', elsewhere⟩ := whole.apart exchange.before old
        exact .inr ⟨(whole.live p.p len).mpr ⟨p, old', taken, rfl, size⟩, elsewhere⟩

def fitting (mp : Mempool) (len : UInt32) : Option (List MempoolBlockList × MempoolBlockList × List MempoolBlockList) :=
  locate (fun p => p.free.any fun q => len ≤ q.len.toUInt32) mp.block

theorem fitting_some (whole : Whole s) (found : fitting s.pool len = some (front, p, back)) :
    s.pool.block = front ++ p :: back ∧ p.Untouched ∧ len ≤ p.len.toUInt32 ∧
      (Exact s.pool len ↔ p.len.toUInt32 = len) := by
  obtain ⟨blocks, passes, before⟩ := locate_some found
  have member : p ∈ s.pool.block := by simp [blocks]
  rcases whole.single p member with taken | untouched
  · simp [taken.2] at passes
  have enough : len ≤ p.len.toUInt32 := by simpa [untouched.2, MempoolBlockList.whole] using passes
  refine ⟨blocks, untouched, enough, ?_⟩
  have first : (s.pool.block.flatMap fun p => p.free).find? (fun q => len ≤ q.len.toUInt32) = some p.whole := by
    rw [blocks, flatMap_append, List.find?_append, List.find?_eq_none.mpr, Option.none_or, flatMap_cons, untouched.2]
    · simp [MempoolBlockList.whole, enough]
    · intro q qMember
      obtain ⟨b, bMember, inB⟩ := mem_flatMap.mp qMember
      have none' := before b bMember
      rw [any_eq_false] at none'
      exact none' q inB
  rw [Exact, first]
  rfl

theorem fitting_none (none' : fitting s.pool len = none) :
    Exact s.pool len ↔ ∃ k, k < 19 ∧ s.pool.numpages.toUInt32.toNat ≤ 2 ^ k ∧ len.toNat = 2 ^ k * 4096 := by
  have absent : (s.pool.block.flatMap fun p => p.free).find? (fun q => len ≤ q.len.toUInt32) = none := by
    rw [List.find?_eq_none]
    intro q qMember
    obtain ⟨b, bMember, inB⟩ := mem_flatMap.mp qMember
    have fails := locate_none.mp none' b bMember
    rw [any_eq_false] at fails
    exact fails q inB
  rw [Exact, absent]

structure Added (s : PoolState) (len : UInt32) (p : MempoolBlockList) (mem : HeapState) (k : Nat) :
    Prop where
  small : k < 20
  untouched : p.Untouched
  size : p.len = (4096 * doubled k).toInt32
  enough : len.toNat ≤ 2 ^ k * 4096
  exact : Exact s.pool len ↔ len.toNat = 2 ^ k * 4096 ∧ k < 19
  aligned : p.p % pagesize = 0
  fresh : k < 19 → s.mem.live p.p = none
  live : k < 19 → ∃ u, mem.live p.p = some u ∧ p.len.toInt ≤ u
  kept : k < 19 → ∀ v u, s.mem.live v = some u → mem.live v = some u
  ordered : k < 19 → Ordered mem.heap mem.live none

theorem len_of_small {k : Nat} (small : k < 19) : (4096 * doubled k).toInt32.toInt = 2 ^ k * 4096 := by
  have bound : 2 ^ k ≤ 2 ^ 18 := Nat.pow_le_pow_right (by decide) (by omega)
  rw [toInt_toInt32 (by rw [doubled_bytes (by omega)]; omega), doubled_bytes (by omega)]
  push_cast
  rfl

theorem pages_fit {k : Nat} (small : k < 19) :
    (doubled k).toInt32.toInt * 4096 = 2 ^ k * 4096 ∧ HeapState.Fits (.allocPages (doubled k).toInt32) := by
  have bound : (2 : Int) ^ k ≤ 2 ^ 18 := by
    exact_mod_cast Nat.pow_le_pow_right (show 0 < 2 by decide) (show k ≤ 18 by omega)
  have positive : (0 : Int) < 2 ^ k := Int.pow_pos (by decide)
  have count : (doubled k).toInt32.toInt = 2 ^ k := by
    rw [toInt_toInt32, doubled_toNat (by omega)]
    · push_cast
      rfl
    · rw [doubled_toNat (by omega)]
      exact Nat.pow_lt_pow_right (by decide) (by omega)
  have factor : (4096 : Int32).toInt = 4096 := rfl
  refine ⟨by rw [count], .inl ?_⟩
  rw [Int32.toInt_mul, factor, count, Int.bmod_eq_of_le (by omega) (by omega)]

theorem allocPages_aligned {before after : HeapState} {n : Int32} (ordered : Ordered before.heap before.live none)
    (steps : before.step (.allocPages n) = some (after, r)) : r % pagesize = 0 := by
  unfold HeapState.step at steps
  cases ran : before.heap.allocPages n with
  | none => simp only [ran, reduceCtorEq] at steps
  | some result =>
    obtain ⟨q, heap⟩ := result
    obtain ⟨i, f, buddy, -, -, -, rfl, -⟩ := allocPages_given ordered ran
    simp only [ran, some.injEq, Prod.mk.injEq] at steps
    rw [← steps.2]
    exact pageToVirt_mod f (show 0 < pagesize by decide)

theorem ordered_memset (ordered : Ordered mem.heap mem.live none) (clear : Bool) (dest n : Nat) :
    Ordered (if clear then mem.memset dest n else mem).heap
      (if clear then mem.memset dest n else mem).live none := by
  cases clear
  · exact ordered
  · exact ordered.memory_congr _

theorem live_memset (mem : HeapState) (clear : Bool) (dest n : Nat) :
    (if clear then mem.memset dest n else mem).live = mem.live := by
  cases clear
  · rfl
  · rfl

theorem newBlock_added (whole : Whole s) (none' : fitting s.pool len = none)
    (new : s.pool.newBlock s.mem len = some (p, mem)) : ∃ k, Added s len p mem k := by
  obtain ⟨j, jSmall, numpages⟩ := whole.numpages
  unfold newBlock at new
  cases ended : npagesLoop len s.pool.numpages.toUInt32 with
  | none => simp only [ended, reduceCtorEq] at new
  | some npages =>
    obtain ⟨k, above, small, rfl, enough, minimal⟩ := npages_doubled numpages jSmall ended
    simp only [ended] at new
    cases steps : s.mem.step (.allocPages (doubled k).toInt32) with
    | none => simp only [steps, reduceCtorEq] at new
    | some result =>
      obtain ⟨after, tmp⟩ := result
      simp only [steps] at new
      cases new
      have aligned := allocPages_aligned whole.ordered steps
      have exact' : Exact s.pool len ↔ len.toNat = 2 ^ k * 4096 ∧ k < 19 := by
        rw [fitting_none none', numpages, doubled_toNat (by omega)]
        constructor
        · rintro ⟨l, lSmall, least, size⟩
          have upper := (Nat.pow_le_pow_iff_right (show 1 < 2 by decide)).mp least
          have lower : l ≤ k := (Nat.pow_le_pow_iff_right (show 1 < 2 by decide)).mp (by omega)
          rcases minimal with rfl | less
          · have same : l = k := by omega
            exact ⟨same ▸ size, same ▸ lSmall⟩
          · have below : k - 1 < l := (Nat.pow_lt_pow_iff_right (show 1 < 2 by decide)).mp (by omega)
            have same : l = k := by omega
            exact ⟨same ▸ size, same ▸ lSmall⟩
        · rintro ⟨size, kSmall⟩
          exact ⟨k, kSmall, Nat.pow_le_pow_right (by decide) above, size⟩
      have given : k < 19 → Ordered after.heap after.live none ∧ HeapState.Gets s.mem (2 ^ k * 4096) tmp after := by
        intro kSmall
        obtain ⟨bytes, fits⟩ := pages_fit kSmall
        obtain ⟨ordered, gets, -⟩ := HeapState.step_allocPages whole.ordered fits steps
        rw [bytes] at gets
        have same : ((2 : Int) ^ k * 4096).toNat = 2 ^ k * 4096 := by norm_cast
        rw [same] at gets
        exact ⟨ordered, gets⟩
      refine ⟨k, small, ⟨rfl, rfl⟩, rfl, enough, exact', aligned,
        fun kSmall => (given kSmall).2.fresh, ?_, ?_, fun kSmall => ordered_memset (given kSmall).1 _ _ _⟩
      · intro kSmall
        obtain ⟨u, size, live⟩ := (given kSmall).2.size
        refine ⟨u, ?_, ?_⟩
        · rw [live_memset, live, update_self]
        · rw [len_of_small kSmall]
          exact_mod_cast size
      · intro kSmall v u isLive
        rw [live_memset]
        exact (given kSmall).2.live_kept isLive

theorem live_given (live : Nat → Option UInt32) (taken : q.Taken) (size : q.len.toUInt32 = len)
    (v : Nat) (l : UInt32) : update live q.p (some len) v = some l ↔
      (∃ b ∈ [q], b.Taken ∧ b.p = v ∧ b.len.toUInt32 = l) ∨ (live v = some l ∧ q.p ≠ v) := by
  simp only [mem_singleton, exists_eq_left, taken, true_and, size]
  by_cases same : q.p = v
  · subst same
    simp
  · rw [update_of_ne (Ne.symm same)]
    simp [same]

theorem allocmem_fitting (whole : Whole s) (asked : len ≠ 0) (found : fitting s.pool len = some (front, p, back))
    (allocated : s.allocmem len = some (t, r)) : Exact s.pool len ∧ Whole t ∨ ¬Exact s.pool len ∧ ¬Sound t := by
  obtain ⟨blocks, untouched, enough, exact'⟩ := fitting_some whole found
  have search : locate (fun p => p.free.any fun q => len ≤ q.len.toUInt32) s.pool.block = some (front, p, back) := found
  have member : p ∈ s.pool.block := by simp [blocks]
  rw [allocmem, if_neg asked, search] at allocated
  simp only [take_untouched untouched enough] at allocated
  rw [exact']
  by_cases size : p.len.toUInt32 = len
  · simp only [if_pos size, some.injEq, Prod.mk.injEq] at allocated
    obtain ⟨same, -⟩ := allocated
    have taken : ({ p with alloc := [p.whole], free := [] } : MempoolBlockList).Taken := ⟨rfl, rfl⟩
    have tBlocks : t.pool.block = front ++ { p with alloc := [p.whole], free := [] } :: back := by rw [← same]
    have freeBefore := freeBlocks_untouched blocks untouched
    have freeAfter := freeBlocks_taken tBlocks taken
    have keep := whole.keep
    have kept := whole.kept
    have exchange : Exchange s t front [p] [{ p with alloc := [p.whole], free := [] }] back := {
      before := by simp [blocks]
      after := by simp [tBlocks]
      ordered := by simpa [← same] using whole.ordered
      numpages := by simp [← same]
      single := by simp [taken]
      pages := by simpa [← same] using whole.pages p member
      pagesKept := by simp [← same]
      nodup := by simpa [← same, blocks] using whole.nodup
      live := by simpa [← same] using live_given s.live taken size
      keep := by
        have pred : t.pool.keep = s.pool.keep - 1 := by simp [← same]
        rw [pred, toInt_pred (by omega)]
        omega
      kept := by
        have limit : t.pool.numkeeps = s.pool.numkeeps := by simp [← same]
        rw [limit]
        omega }
    exact .inl ⟨size, whole.exchange exchange⟩
  · simp only [if_neg size, some.injEq, Prod.mk.injEq] at allocated
    obtain ⟨rfl, -⟩ := allocated
    refine .inr ⟨size, fun sound => ?_⟩
    have less : len < p.len.toUInt32 := UInt32.lt_of_le_of_ne enough (Ne.symm size)
    exact not_partitioned_split asked less (sound.partitioned (p.split len) (by simp))

theorem allocmem_added (whole : Whole s) (asked : len ≠ 0) (none' : fitting s.pool len = none)
    (allocated : s.allocmem len = some (t, r)) : Exact s.pool len ∧ Whole t ∨ ¬Exact s.pool len ∧ ¬Sound t := by
  have search : locate (fun p => p.free.any fun q => len ≤ q.len.toUInt32) s.pool.block = none := none'
  rw [allocmem, if_neg asked, search] at allocated
  cases new : s.pool.newBlock s.mem len with
  | none => simp only [new, reduceCtorEq] at allocated
  | some result =>
    obtain ⟨p, mem⟩ := result
    obtain ⟨k, added⟩ := newBlock_added whole none' new
    have bytes : p.len.toUInt32.toNat = 2 ^ k * 4096 := by
      rw [added.size, UInt32.toUInt32_toInt32, doubled_bytes added.small]
    have enough : len ≤ p.len.toUInt32 := by
      rw [UInt32.le_iff_toNat_le, bytes]
      exact added.enough
    simp only [new, take_untouched added.untouched enough, Int32.add_sub_cancel] at allocated
    rw [added.exact]
    by_cases size : p.len.toUInt32 = len
    · simp only [if_pos size, some.injEq, Prod.mk.injEq] at allocated
      obtain ⟨same, -⟩ := allocated
      have taken : ({ p with alloc := [p.whole], free := [] } : MempoolBlockList).Taken := ⟨rfl, rfl⟩
      have tBlocks : t.pool.block = s.pool.block ++ [{ p with alloc := [p.whole], free := [] }] := by rw [← same]
      by_cases small : k < 19
      · have positive : 0 < p.len.toInt := by
          rw [added.size, len_of_small small]
          exact Int.mul_pos (Int.pow_pos (by decide)) (by decide)
        have fresh : ∀ b ∈ s.pool.block, b.p ≠ p.p := by
          intro b member address
          obtain ⟨-, -, u, isLive, -⟩ := whole.pages b member
          rw [address, added.fresh small] at isLive
          cases isLive
        have notLive : ∀ l, s.live p.p ≠ some l := by
          intro l isLive
          obtain ⟨b, member, -, address, -⟩ := (whole.live p.p l).mp isLive
          exact fresh b member address
        have freeAfter : freeBlocks t.pool = freeBlocks s.pool := by
          rw [freeBlocks_taken tBlocks taken]
          rfl
        have exchange : Exchange s t s.pool.block [] [{ p with alloc := [p.whole], free := [] }]
            [] := {
          before := by simp
          after := by simp [tBlocks]
          ordered := by simpa [← same] using added.ordered small
          numpages := by simp [← same]
          single := by simp [taken]
          pages := by simpa [← same] using ⟨positive, added.aligned, added.live small⟩
          pagesKept := by simpa [← same] using
            fun (b : MempoolBlockList) _ u => added.kept small b.p u
          nodup := by
            rw [tBlocks, map_append, nodup_append]
            exact ⟨whole.nodup, nodup_singleton _, by simpa using fresh⟩
          live := by
            intro v l
            have elsewhere : s.live v = some l → p.p ≠ v := by
              rintro isLive rfl
              exact notLive l isLive
            have given := live_given s.live taken size v l
            rw [← same]
            refine Iff.trans given (or_congr_right ⟨fun old => ⟨old.1, by simp⟩, fun old => ⟨old.1, elsewhere old.1⟩⟩)
          keep := by
            rw [freeAfter, ← whole.keep]
            simp [← same]
          kept := by
            rw [freeAfter]
            simpa [← same] using whole.kept }
        refine .inl ⟨⟨?_, small⟩, whole.exchange exchange⟩
        rw [← size, bytes]
      · refine .inr ⟨fun fits => small fits.2, fun sound => ?_⟩
        have partitioned := sound.partitioned { p with alloc := [p.whole], free := [] } (by simp [tBlocks])
        have positive : 0 < p.len.toInt := partitioned.positive p.whole (by simp)
        have largest : k = 19 := by
          have bound := added.small
          omega
        rw [added.size, largest] at positive
        exact absurd positive (by decide)
    · simp only [if_neg size, some.injEq, Prod.mk.injEq] at allocated
      obtain ⟨rfl, -⟩ := allocated
      refine .inr ⟨fun fits => size ?_, fun sound => ?_⟩
      · rw [← UInt32.toNat_inj, bytes, fits.1]
      · have less : len < p.len.toUInt32 := UInt32.lt_of_le_of_ne enough (Ne.symm size)
        exact not_partitioned_split asked less (sound.partitioned (p.split len) (by simp))

theorem allocmem_cases (whole : Whole s) (allocated : s.allocmem len = some (t, r)) :
    Fits s (.allocmem len) ∧ Whole t ∨ ¬Fits s (.allocmem len) ∧ ¬Sound t := by
  unfold Fits
  by_cases asked : len = 0
  · rw [allocmem, if_pos asked] at allocated
    cases allocated
    exact .inl ⟨.inl asked, whole⟩
  · simp only [asked, false_or]
    cases found : fitting s.pool len with
    | none => exact allocmem_added whole asked found allocated
    | some result =>
      obtain ⟨front, p, back⟩ := result
      exact allocmem_fitting whole asked found allocated

theorem live_taken {live : Nat → Option UInt32} (v : Nat) (l : UInt32) :
    update live p.p none v = some l ↔ live v = some l ∧ ∀ b ∈ [p], b.p ≠ v := by
  by_cases same : p.p = v
  · subst same
    simp
  · rw [update_of_ne (Ne.symm same)]
    simp [same]

theorem Whole.freemem (whole : Whole s) (isLive : s.live virt ≠ none) (freed : s.freemem virt = some t) : Whole t := by
  obtain ⟨len, liveLen⟩ := Option.ne_none_iff_exists'.mp isLive
  obtain ⟨p, member, taken, rfl, -⟩ := (whole.live virt len).mp liveLen
  obtain ⟨front, back, blocks⟩ := append_of_mem member
  have untouched : ({ p with alloc := [], free := [p.whole] } : MempoolBlockList).Untouched := ⟨rfl, rfl⟩
  have freeBefore := freeBlocks_taken blocks taken
  have keep := whole.keep
  have kept := whole.kept
  rw [freemem_taken whole blocks taken, release_single rfl rfl] at freed
  by_cases less : s.pool.keep < s.pool.numkeeps
  · simp only [if_pos less, some.injEq] at freed
    have tBlocks : t.pool.block = front ++ { p with alloc := [], free := [p.whole] } :: back := by rw [← freed]
    have freeAfter := freeBlocks_untouched tBlocks untouched
    have exchange : Exchange s t front [p] [{ p with alloc := [], free := [p.whole] }] back := {
      before := by simp [blocks]
      after := by simp [tBlocks]
      ordered := by simpa [← freed] using whole.ordered
      numpages := by simp [← freed]
      single := by simp [untouched]
      pages := by simpa [← freed] using whole.pages p member
      pagesKept := by simp [← freed]
      nodup := by simpa [← freed, blocks] using whole.nodup
      live := by
        intro v l
        have notTaken : ¬({ p with alloc := [], free := [p.whole] } : MempoolBlockList).Taken :=
          fun taken => by cases taken.1
        rw [← freed]
        simpa [notTaken] using live_taken v l
      keep := by
        have succ : t.pool.keep = s.pool.keep + 1 := by simp [← freed]
        rw [succ, toInt_succ (by omega) less]
        omega
      kept := by
        have limit : t.pool.numkeeps = s.pool.numkeeps := by simp [← freed]
        rw [Int32.lt_iff_toInt_lt] at less
        rw [limit]
        omega }
    exact whole.exchange exchange
  · simp only [if_neg less, some.injEq] at freed
    have tBlocks : t.pool.block = front ++ back := by rw [← freed]
    have freeAfter : freeBlocks t.pool = freeIn front + freeIn back := by
      rw [freeBlocks, tBlocks, countP_append]
      rfl
    obtain ⟨positive, aligned, u, pages, size⟩ := whole.pages p member
    have exchange : Exchange s t front [p] [] back := {
      before := by simp [blocks]
      after := by simp [tBlocks]
      ordered := by
        have steps : s.mem.step (.freePage p.p) = some ({
            heap := s.mem.heap.freePage p.p
            live := update s.mem.live p.p none }, 0) := by
          simp only [HeapState.step, pages]
        rw [← freed]
        exact (HeapState.step_freePage whole.ordered aligned steps).1
      numpages := by simp [← freed]
      single := by simp
      pages := by simp
      pagesKept := by
        intro b old u bLive
        have other := (whole.apart (show s.pool.block = front ++ [p] ++ back by simp [blocks]) old).2 p (by simp)
        have keeps : update s.mem.live p.p none b.p = some u := by rw [update_of_ne other.symm, bLive]
        rw [← freed]
        exact keeps
      nodup := by
        have nodup := whole.nodup
        rw [blocks, map_append, map_cons] at nodup
        rw [tBlocks, map_append]
        exact (nodup_middle.mp nodup).of_cons
      live := by
        intro v l
        rw [← freed]
        simpa using live_taken v l
      keep := by
        have limit : t.pool.keep = s.pool.keep := by simp [← freed]
        rw [limit]
        omega
      kept := by
        have limit : t.pool.numkeeps = s.pool.numkeeps := by simp [← freed]
        rw [limit]
        omega }
    exact whole.exchange exchange

theorem sound_iff_fits (whole : Whole s) {event : PoolEvent} (step : Step s event t) :
    (Sound t ↔ Fits s event) ∧ (Fits s event → Whole t) := by
  cases step with
  | allocmem allocated =>
    rcases allocmem_cases whole allocated with ⟨fits, after⟩ | ⟨unfit, broken⟩
    · exact ⟨⟨fun _ => fits, fun _ => after.sound⟩, fun _ => after⟩
    · exact ⟨⟨fun sound => absurd sound broken, fun fits => absurd fits unfit⟩,
        fun fits => absurd fits unfit⟩
  | freemem isLive freed =>
    have after := whole.freemem isLive freed
    exact ⟨⟨fun _ => trivial, fun _ => after.sound⟩, fun _ => after⟩
  | other fits foreign =>
    have after := whole.other fits foreign
    exact ⟨⟨fun _ => trivial, fun _ => after.sound⟩, fun _ => after⟩

/-- The memory of a new `struct mempool` has a zero where `keep` will be. -/
def KeepZero (s : HeapState) : Prop := ∀ r t, s.step (.alloc 40) = some (t, r) → keepWord t.heap.memory r = 0

theorem new_spec {blocksize numkeeps : Int32} {clear : Bool} (ordered : Ordered mem.heap mem.live none)
    (made : Mempool.new mem blocksize numkeeps clear = some s) :
    (KeepZero mem ∧ 0 ≤ numkeeps.toInt → Whole s) ∧ (Sound s → KeepZero mem ∧ 0 ≤ numkeeps.toInt) := by
  unfold Mempool.new at made
  cases steps : mem.step (.alloc 40) with
  | none => simp only [steps, reduceCtorEq] at made
  | some result =>
    obtain ⟨after, r⟩ := result
    cases ended : numpagesLoop blocksize with
    | none => simp only [steps, ended, reduceCtorEq] at made
    | some numpages =>
      simp only [steps, ended, some.injEq] at made
      have afterOrdered := (HeapState.step_alloc ordered (show Representable 40 by decide) steps).1
      constructor
      · rintro ⟨keepZero, limit⟩
        rw [← made]
        exact ⟨afterOrdered, numpages_doubled ended, by simp, by simp, by simp, by simp,
          by rw [keepZero r after steps]; rfl, by simpa [freeBlocks] using limit⟩
      · intro sound
        have keep := sound.keep
        have kept := sound.kept
        rw [← made] at keep kept
        refine ⟨?_, by simpa [freeBlocks] using kept⟩
        intro q mem' again
        rw [steps] at again
        cases again
        exact Int32.toInt.inj keep

/-- The contract holds in every state of a run of a pool if and only if its `keep` is zero at
first, the number of free blocks that it may keep is not negative, and every part that is taken
has exactly the length that is asked for. -/
theorem mempool_contract (image : Image) {calls : List HeapEvent} {mem : HeapState}
    (booted : Run HeapState.FitStep (HeapState.boot image) calls mem) {blocksize numkeeps : Int32} {clear : Bool}
    (made : Mempool.new mem blocksize numkeeps clear = some s) (events : List PoolEvent) :
    Sound s ∧ Run SoundStep s events t ↔ (KeepZero mem ∧ 0 ≤ numkeeps.toInt) ∧ Run FitStep s events t := by
  obtain ⟨begins, needs⟩ := new_spec (HeapState.ordered_run booted) made
  have same : Whole s → (Run SoundStep s events t ↔ Run FitStep s events t) := by
    refine fun whole => Run.congr Whole ?_ ?_ whole
    · intro before event after whole
      exact and_congr_right fun step => (sound_iff_fits whole step).1
    · intro before event after step whole
      exact (sound_iff_fits whole step.1).2 step.2
  constructor
  · rintro ⟨sound, run⟩
    have start := needs sound
    exact ⟨start, (same (begins start)).mp run⟩
  · rintro ⟨start, run⟩
    have whole := begins start
    exact ⟨whole.sound, (same whole).mpr run⟩

theorem mempool_contract_page : ∃ s t, Mempool.new (HeapState.boot largeImage) 0 1 true = some s ∧
    Sound s ∧ Run SoundStep s [.allocmem 4096] t := by
  obtain ⟨s, t, r, mem, q, made, allocated, blocks, numpages, given, keep⟩ : ∃ s t r mem q,
      Mempool.new (HeapState.boot largeImage) 0 1 true = some s ∧
        s.allocmem 4096 = some (t, r) ∧ s.pool.block = [] ∧ s.pool.numpages = 1 ∧
        (HeapState.boot largeImage).step (.alloc 40) = some (mem, q) ∧
        keepWord mem.heap.memory q = 0 := by
    rw [HeapState.boot_threePages]
    exact ⟨_, _, _, _, _, rfl, rfl, rfl, rfl, rfl, rfl⟩
  have fits : Fits s (.allocmem 4096) := by
    refine .inr ?_
    rw [Exact, blocks]
    exact ⟨0, by decide, by rw [numpages]; decide, rfl⟩
  have keepZero : KeepZero (HeapState.boot largeImage) := by
    intro r after steps
    rw [given] at steps
    cases steps
    exact keep
  exact ⟨s, t, made, (mempool_contract largeImage (Run.nil _) made _).mpr
    ⟨⟨keepZero, by decide⟩, Run.cons ⟨Step.allocmem allocated, fits⟩ (Run.nil t)⟩⟩

/-- The part that is left of a block of one page after a first call for 100 bytes still has the
length of the page. -/
theorem split_beyond_block : ¬∀ image blocksize numkeeps clear s events t,
    Mempool.new (HeapState.boot image) blocksize numkeeps clear = some s → Run Step s events t →
      Sound t := by
  intro always
  obtain ⟨s, t, r, made, allocated, block⟩ : ∃ s t r,
      Mempool.new (HeapState.boot largeImage) 0 1 true = some s ∧
        s.allocmem 100 = some (t, r) ∧ t.pool.block = [{
          alloc := [{ off := 0, len := 100 }]
          free := [{ off := 100, len := 4096 }]
          p := pageToVirt 32766
          len := 4096 }] := by
    rw [HeapState.boot_threePages]
    exact ⟨_, _, _, rfl, rfl, rfl⟩
  have sound := always largeImage 0 1 true s _ t made (Run.cons (Step.allocmem allocated) (Run.nil t))
  have covered := (sound.partitioned _ (by rw [block]; exact mem_singleton_self _)).covered 4096
  exact absurd covered (by decide)

end PoolState

end DisasVisor.Mm
