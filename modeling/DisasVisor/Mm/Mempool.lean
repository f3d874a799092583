import DisasVisor.Lib.Searches
import DisasVisor.Mm.HeapContract
import DisasVisor.Lib.Words

/-!
The memory pools of `core/mm.c`. The nodes of their lists are values here; the calls of the heap
that get and free the nodes are among its other calls.
-/

namespace DisasVisor.Mm

open Function Searches

def HeapState.memset (s : HeapState) (dest len : Nat) : HeapState :=
  { s with
    heap := { s.heap with
      memory := fun a => if dest ≤ a ∧ a < dest + len then 0 else s.heap.memory a } }

structure MempoolList where
  off : Int32
  len : Int32

structure MempoolBlockList where
  alloc : List MempoolList
  free : List MempoolList
  p : Nat
  len : Int32

structure Mempool where
  block : List MempoolBlockList
  numpages : Int32
  numkeeps : Int32
  clear : Bool
  keep : Int32

namespace MempoolBlockList

def address (p : MempoolBlockList) (q : MempoolList) : Nat := ((p.p : Int) + q.off.toInt).toNat

/-- `mempool_allocmem` from its label `found`, in the block `p` of a pool with this `keep`. -/
def take (p : MempoolBlockList) (keep : Int32) (len : UInt32) : Option (Nat × MempoolBlockList × Int32) :=
  match locate (fun q => len ≤ q.len.toUInt32) p.free with
  | none => none
  | some (front, q, back) =>
    let keep := if q.len = p.len then keep - 1 else keep
    if q.len.toUInt32 = len then
      some (p.address q, { p with alloc := p.alloc ++ [q], free := front ++ back }, keep)
    else
      let qq : MempoolList := { off := q.off, len := len.toInt32 }
      let rest := { q with off := q.off + len.toInt32 }
      some (p.address qq, { p with alloc := p.alloc ++ [qq], free := front ++ rest :: back }, keep)

def joinLower (free : List MempoolList) (q : MempoolList) : List MempoolList × MempoolList × List MempoolList :=
  match locate (fun qq => qq.off + qq.len = q.off) free with
  | none => (free, q, [])
  | some (front, qq, back) => (front, { qq with len := qq.len + q.len }, back)

def joinUpper (front : List MempoolList) (q : MempoolList) (back : List MempoolList) : List MempoolList :=
  match locate (fun qq => q.off + q.len = qq.off) front with
  | some (before, qq, after) => before ++ after ++ { q with len := q.len + qq.len } :: back
  | none =>
    match locate (fun qq => q.off + q.len = qq.off) back with
    | some (before, qq, after) => front ++ { q with len := q.len + qq.len } :: (before ++ after)
    | none => front ++ q :: back

def join (free : List MempoolList) (q : MempoolList) : List MempoolList :=
  let (front, q, back) := joinLower free q
  joinUpper front q back

end MempoolBlockList

structure PoolState where
  mem : HeapState
  pool : Mempool
  live : Nat → Option UInt32

namespace Mempool

def loopFuel : Nat := 33

def numpagesLoop (blocksize : Int32) : Option Int32 :=
  advance (fun numpages => 4096 * numpages < blocksize) (fun numpages => numpages <<< 1) loopFuel 1

def npagesLoop (len numpages : UInt32) : Option UInt32 :=
  advance (fun npages => 4096 * npages < len) (fun npages => npages <<< 1) loopFuel numpages

/-- What the memory has at `&p->keep` of a `struct mempool` at `r`. -/
def keepWord (memory : Nat → UInt8) (r : Nat) : Int32 :=
  ((memory (r + 28)).toUInt32 ||| (memory (r + 29)).toUInt32 <<< 8 |||
    (memory (r + 30)).toUInt32 <<< 16 ||| (memory (r + 31)).toUInt32 <<< 24).toInt32

def new (s : HeapState) (blocksize numkeeps : Int32) (clear : Bool) : Option PoolState :=
  match s.step (.alloc 40) with
  | none => none
  | some (s, r) =>
    match numpagesLoop blocksize with
    | none => none
    | some numpages =>
      some {
        mem := s
        pool := {
          block := []
          numpages := numpages
          numkeeps := numkeeps
          clear := clear
          keep := keepWord s.heap.memory r }
        live := fun _ => none }

def newBlock (s : HeapState) (mp : Mempool) (len : UInt32) : Option (MempoolBlockList × HeapState) :=
  match npagesLoop len mp.numpages.toUInt32 with
  | none => none
  | some npages =>
    match s.step (.allocPages npages.toInt32) with
    | none => none
    | some (s, tmp) =>
      let p : MempoolBlockList := {
        alloc := []
        free := [{ off := 0, len := (4096 * npages).toInt32 }]
        p := tmp
        len := (4096 * npages).toInt32 }
      some (p, if mp.clear then s.memset p.p p.len.toInt.toNat else s)

end Mempool

namespace PoolState

def allocmem (s : PoolState) (len : UInt32) : Option (PoolState × Nat) :=
  if len = 0 then some (s, 0)
  else
    match locate (fun p => p.free.any fun q => len ≤ q.len.toUInt32) s.pool.block with
    | some (front, p, back) =>
      match p.take s.pool.keep len with
      | none => none
      | some (r, p, keep) =>
        some ({ s with
          pool := { s.pool with block := front ++ p :: back, keep := keep }
          live := update s.live r (some len) }, r)
    | none =>
      match s.pool.newBlock s.mem len with
      | none => none
      | some (p, mem) =>
        match p.take (s.pool.keep + 1) len with
        | none => none
        | some (r, p, keep) =>
          some ({
            mem := mem
            pool := { s.pool with block := s.pool.block ++ [p], keep := keep }
            live := update s.live r (some len) }, r)

/-- The last loop of `mempool_freemem`, over the block `p` that got a part back: it looks at the
first part only. -/
def release (s : PoolState) (front : List MempoolBlockList) (p : MempoolBlockList)
    (back : List MempoolBlockList) : Option PoolState :=
  let kept := { s with pool := { s.pool with block := front ++ p :: back } }
  match p.free with
  | [] => some kept
  | q :: rest =>
    if q.len ≠ p.len then some kept
    else if s.pool.keep < s.pool.numkeeps then
      some { kept with pool := { kept.pool with keep := s.pool.keep + 1 } }
    else if p.alloc.isEmpty ∧ rest.isEmpty then
      some { s with
        pool := { s.pool with block := front ++ back }
        mem := {
          heap := s.mem.heap.freePage p.p
          live := update s.mem.live p.p none } }
    else none

def freemem (s : PoolState) (virt : Nat) : Option PoolState :=
  match locate (fun p => p.p ≤ virt ∧ (virt : Int) < p.p + p.len.toInt) s.pool.block with
  | none => none
  | some (front, p, back) =>
    match locate (fun q => p.address q = virt) p.alloc with
    | none => none
    | some (before, q, after) =>
      release { s with live := update s.live virt none } front
        { p with alloc := before ++ after, free := MempoolBlockList.join p.free q } back

end PoolState

/-!
The sizes of the blocks of a pool, and what `mempool_allocmem` and `mempool_freemem` do to a block
that is one part.
-/

open Integers

namespace Mempool

variable {len numpages npages : UInt32} {blocksize count : Int32}

def doubled (m : Nat) : UInt32 := (fun npages : UInt32 => npages <<< 1)^[m] 1

theorem doubled_toNat {m : Nat} (small : m < 20) : (doubled m).toNat = 2 ^ m := by
  have all : ∀ m, m < 20 → (doubled m).toNat = 2 ^ m := by decide
  exact all m small

theorem doubled_bytes {m : Nat} (small : m < 20) : (4096 * doubled m).toNat = 2 ^ m * 4096 := by
  have all : ∀ m, m < 20 → (4096 * doubled m).toNat = 2 ^ m * 4096 := by decide
  exact all m small

theorem numpages_doubled (ended : numpagesLoop blocksize = some count) : ∃ j, j < 19 ∧ count.toUInt32 = doubled j := by
  obtain ⟨m, bound, rfl, stops, before⟩ := advance_some ended
  have same : ∀ m, m < 19 → ((fun numpages : Int32 => numpages <<< 1)^[m] 1).toUInt32 = doubled m := by decide
  have wraps : ∀ m, m < loopFuel → m < 19 ∨
      (4096 : Int32) * (fun numpages : Int32 => numpages <<< 1)^[m] 1 ≤
        (4096 : Int32) * (fun numpages : Int32 => numpages <<< 1)^[18] 1 := by decide
  rcases wraps m bound with small | smaller
  · exact ⟨m, small, same m small⟩
  · by_cases small : m < 19
    · exact ⟨m, small, same m small⟩
    · have goesOn := before 18 (by omega)
      simp only [decide_eq_true_eq, decide_eq_false_iff_not] at goesOn stops
      exact absurd (Int32.lt_of_le_of_lt smaller goesOn) stops

theorem npages_doubled {j : Nat} (first : numpages = doubled j) (small : j < 19)
    (ended : npagesLoop len numpages = some npages) :
    ∃ k, j ≤ k ∧ k < 20 ∧ npages = doubled k ∧ len.toNat ≤ 2 ^ k * 4096 ∧ (k = j ∨ 2 ^ (k - 1) * 4096 < len.toNat) := by
  obtain ⟨m, bound, same, stops, before⟩ := advance_some ended
  have iterate : ∀ l, (fun npages : UInt32 => npages <<< 1)^[l] numpages = doubled (l + j) := by
    intro l
    rw [first, doubled, doubled, Function.iterate_add_apply]
  rw [iterate] at same
  have wraps : ∀ l, l < 52 → l < 20 ∨ 4096 * doubled l = 0 := by decide
  have loopFuel' : loopFuel = 33 := rfl
  simp only [decide_eq_true_eq, decide_eq_false_iff_not, iterate, UInt32.lt_iff_toNat_lt, Nat.not_lt] at stops before
  rw [same] at stops
  have below : m + j < 20 := by
    rcases wraps (m + j) (by omega) with below | zero
    · exact below
    · by_contra large
      have earlier := before (m - 1) (by omega)
      rw [zero] at stops
      have empty := UInt32.toNat_zero
      omega
  rw [doubled_bytes below] at stops
  refine ⟨m + j, by omega, below, same, stops, ?_⟩
  by_cases zero : m = 0
  · exact .inl (by omega)
  · have earlier := before (m - 1) (by omega)
    rw [doubled_bytes (by omega), show m - 1 + j = m + j - 1 by omega] at earlier
    exact .inr earlier

end Mempool

namespace MempoolBlockList

structure Partitioned (p : MempoolBlockList) : Prop where
  positive : ∀ q ∈ p.alloc ++ p.free, 0 < q.len.toInt
  covered : ∀ x : Int, (p.alloc ++ p.free).countP
    (fun q => q.off.toInt ≤ x ∧ x < q.off.toInt + q.len.toInt) =
      if 0 ≤ x ∧ x < p.len.toInt then 1 else 0

def Joined (p : MempoolBlockList) : Prop := ∀ q ∈ p.free, ∀ q' ∈ p.free, q.off.toInt + q.len.toInt ≠ q'.off.toInt

def whole (p : MempoolBlockList) : MempoolList := { off := 0, len := p.len }

def Taken (p : MempoolBlockList) : Prop := p.alloc = [p.whole] ∧ p.free = []

def Untouched (p : MempoolBlockList) : Prop := p.alloc = [] ∧ p.free = [p.whole]

variable {p : MempoolBlockList} {len : UInt32} {keep : Int32}

theorem partitioned_of_single (positive : 0 < p.len.toInt) (single : p.alloc ++ p.free = [p.whole]) :
    p.Partitioned := by
  constructor
  · intro q member
    rw [single, List.mem_singleton] at member
    rw [member]
    exact positive
  · intro x
    rw [single, List.countP_singleton]
    have zero : (0 : Int32).toInt = 0 := rfl
    simp only [whole, zero, Int.zero_add, decide_eq_true_eq]

theorem Taken.single (taken : p.Taken) : p.alloc ++ p.free = [p.whole] := by
  rw [taken.1, taken.2]
  rfl

theorem Untouched.single (untouched : p.Untouched) : p.alloc ++ p.free = [p.whole] := by
  rw [untouched.1, untouched.2]
  rfl

theorem address_whole (p : MempoolBlockList) : p.address p.whole = p.p := by
  have zero : (0 : Int32).toInt = 0 := rfl
  simp [address, whole, zero]

/-- `mempool_allocmem` from `found` on, where the block is one free part. -/
def split (p : MempoolBlockList) (len : UInt32) : MempoolBlockList :=
  { p with
    alloc := [{ off := 0, len := len.toInt32 }]
    free := [{ off := len.toInt32, len := p.len }] }

theorem take_untouched (untouched : p.Untouched) (enough : len ≤ p.len.toUInt32) :
    p.take keep len =
      if p.len.toUInt32 = len then
        some (p.p, { p with alloc := [p.whole], free := [] }, keep - 1)
      else some (p.p, p.split len, keep - 1) := by
  have address : p.address { off := 0, len := len.toInt32 } = p.p := address_whole p
  have found : locate (fun q => decide (len ≤ q.len.toUInt32)) [p.whole] = some ([], p.whole, []) := by
    simp [locate, whole, enough]
  rw [take, untouched.1, untouched.2, found]
  simp only [address_whole, List.nil_append]
  simp [whole, split, address]

theorem not_partitioned_split (asked : len ≠ 0) (less : len < p.len.toUInt32) : ¬(p.split len).Partitioned := by
  intro partitioned
  have positive : 0 < p.len.toInt := partitioned.positive { off := len.toInt32, len := p.len } (by simp [split])
  have end' : ¬(0 ≤ p.len.toInt ∧ p.len.toInt < (p.split len).len.toInt) := fun inside => Int.lt_irrefl _ inside.2
  have outside := partitioned.covered p.len.toInt
  rw [if_neg end', List.countP_append] at outside
  have zero : (0 : Int32).toInt = 0 := rfl
  obtain ⟨size, bound⟩ := toNat_toUInt32 (Int.le_of_lt positive)
  rw [UInt32.lt_iff_toNat_lt] at less
  have nonzero : len.toNat ≠ 0 := fun none => asked (UInt32.toNat_inj.mp none)
  have off := toInt_toInt32 (show len.toNat < 2 ^ 31 by omega)
  simp only [split, List.countP_singleton, zero, off, decide_eq_true_eq] at outside
  rw [if_neg (by omega), if_pos (by omega)] at outside
  cases outside

end MempoolBlockList

end DisasVisor.Mm
