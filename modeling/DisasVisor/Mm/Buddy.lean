import DisasVisor.Lib.DyadicTilings

/-!
The page allocator of `core/mm.c`: `mm_page_alloc` and `mm_page_free`, cut where the lock is
dropped.
-/

namespace DisasVisor.Mm

def pagesize : Nat := 4096
def numOfPages : Nat := 32768
def numOfAllocsize : Nat := 13
def numOfPanicmemPages : Nat := 256
def vmmStartVirt : Nat := 0x40000000

inductive PageType where
  | free
  | notHead
  | allocated
  | reserved
  deriving DecidableEq

structure Page where
  type : PageType
  allocsize : Nat

/-- `pagestruct` and `list1_freepage`; a page is its index. -/
structure Buddy where
  pagestruct : Nat → Page
  freepage : Nat → List Nat

def allocsize (n : Nat) : Nat := pagesize <<< n

def pageToVirt (p : Nat) : Nat := vmmStartVirt + pagesize * p

def virtToPage (virt : Nat) : Nat := (virt - vmmStartVirt) >>> 12

namespace Buddy

def type (s : Buddy) (p : Nat) : PageType := (s.pagestruct p).type

def order (s : Buddy) (p : Nat) : Nat := (s.pagestruct p).allocsize

def setType (s : Buddy) (p : Nat) (type : PageType) : Buddy :=
  { s with pagestruct := Function.update s.pagestruct p { s.pagestruct p with type := type } }

def setAllocsize (s : Buddy) (p : Nat) (n : Nat) : Buddy :=
  { s with pagestruct := Function.update s.pagestruct p { s.pagestruct p with allocsize := n } }

def setList (s : Buddy) (n : Nat) (pages : List Nat) : Buddy :=
  { s with freepage := Function.update s.freepage n pages }

def add (s : Buddy) (n p : Nat) : Buddy := s.setList n (s.freepage n ++ [p])

def del (s : Buddy) (n p : Nat) : Buddy := s.setList n ((s.freepage n).erase p)

def pop (s : Buddy) (n : Nat) : Option (Nat × Buddy) :=
  match s.freepage n with
  | [] => none
  | p :: rest => some (p, s.setList n rest)

def buddyOf (p n : Nat) : Nat := virtToPage (pageToVirt p ^^^ allocsize n)

/-- `LIST1_POP` at the head of the loop of `mm_page_alloc`, and what follows the loop up to the
unlock: the page, its old type and the state. -/
def takePage (s : Buddy) (n : Nat) : Option (Nat × PageType × Buddy) :=
  match s.pop n with
  | none => none
  | some (p, s) => some (p, s.type p, s.setType p .allocated)

def putHalves (s : Buddy) (n p : Nat) : Buddy :=
  let q := buddyOf p n
  let s := ((s.setAllocsize p n).setType p .free).setType q .free
  (s.add n p).add n q

def joinPages (s : Buddy) (n p q : Nat) : Buddy :=
  let s := ((s.del n p).del n q).setType q .notHead
  let s := s.setAllocsize p (s.order p + 1)
  s.add (s.order p) p

def mergeLoop : Nat → Buddy → Nat → Nat → Buddy
  | 0, s, _, _ => s
  | room + 1, s, n, p =>
    let q := buddyOf p n
    if s.type q = .free ∧ s.order q = n then
      let (p, q) := if pageToVirt p &&& allocsize n ≠ 0 then (q, p) else (p, q)
      let s := s.joinPages n p q
      mergeLoop room s (s.order p) p
    else s

def mmPageFree (s : Buddy) (p : Nat) : Buddy :=
  let n := s.order p
  let s := (s.setType p .free).add n p
  mergeLoop (numOfAllocsize - 1 - n) s n p

/-- `mm_page_alloc` when no other thread runs; `room` more orders are above `n`, and `none` is an
assertion that fails. -/
def mmPageAllocLoop : Nat → Buddy → Nat → Option (Nat × Buddy)
  | 0, _, _ => none
  | room + 1, s, n =>
    match s.takePage n with
    | some (p, oldType, s) => if oldType = .free then some (p, s) else none
    | none =>
      match mmPageAllocLoop room s (n + 1) with
      | none => none
      | some (p, s) =>
        -- The list has the two halves now, so the loop does not go round again.
        match (s.putHalves n p).takePage n with
        | some (p, oldType, s) => if oldType = .free then some (p, s) else none
        | none => none

def mmPageAlloc (s : Buddy) (n : Nat) : Option (Nat × Buddy) := mmPageAllocLoop (numOfAllocsize - n) s n

def reservedPages : Buddy where
  pagestruct _ := { type := .reserved, allocsize := 0 }
  freepage _ := []

def panicmemStart (imageEnd : Nat) : Nat := (imageEnd + pagesize - 1 - vmmStartVirt) >>> 12

def mmInitGlobal (imageHead imageEnd : Nat) : Buddy :=
  (List.range numOfPages).foldl
    (fun s i =>
      if imageHead ≤ pageToVirt i ∧ pageToVirt i < imageEnd then s
      else if i < panicmemStart imageEnd + numOfPanicmemPages then s
      else s.mmPageFree i)
    reservedPages

variable (s : Buddy) (p n f : Nat) (t : PageType) (pages : List Nat)

@[simp] theorem type_setType : (s.setType p t).type f = if f = p then t else s.type f := by
  unfold setType type
  by_cases same : f = p
  · simp [same]
  · simp [same]

@[simp] theorem order_setType : (s.setType p t).order f = s.order f := by
  unfold setType order
  by_cases same : f = p
  · simp [same]
  · simp [same]

@[simp] theorem freepage_setType : (s.setType p t).freepage = s.freepage := rfl

@[simp] theorem type_setAllocsize : (s.setAllocsize p n).type f = s.type f := by
  unfold setAllocsize type
  by_cases same : f = p
  · simp [same]
  · simp [same]

@[simp] theorem order_setAllocsize : (s.setAllocsize p n).order f = if f = p then n else s.order f := by
  unfold setAllocsize order
  by_cases same : f = p
  · simp [same]
  · simp [same]

@[simp] theorem freepage_setAllocsize : (s.setAllocsize p n).freepage = s.freepage := rfl

@[simp] theorem type_setList : (s.setList n pages).type f = s.type f := rfl

@[simp] theorem order_setList : (s.setList n pages).order f = s.order f := rfl

@[simp] theorem freepage_setList (k : Nat) :
    (s.setList n pages).freepage k = if k = n then pages else s.freepage k := by
  unfold setList
  by_cases same : k = n
  · simp [same]
  · simp [same]

variable {p n}

theorem pageToVirt_eq (small : p < 2 ^ 18) : pageToVirt p = (2 ^ 18 ||| p) <<< 12 := by
  have sum := Nat.two_pow_add_eq_or_of_lt small 1
  rw [Nat.mul_one] at sum
  rw [Nat.shiftLeft_eq, ← sum, pageToVirt, vmmStartVirt, pagesize]
  omega

theorem allocsize_eq : Mm.allocsize n = 2 ^ n <<< 12 := by
  rw [Mm.allocsize, pagesize, Nat.shiftLeft_eq, Nat.shiftLeft_eq, Nat.mul_comm]

theorem buddyOf_eq (small : p < numOfPages) (order : n < 12) : buddyOf p n = p ^^^ 2 ^ n := by
  have bits : p < 2 ^ 15 := small
  have power : 2 ^ n < 2 ^ 15 := Nat.pow_lt_pow_right (by omega) (by omega)
  have flipped : p ^^^ 2 ^ n < 2 ^ 15 := Nat.xor_lt_two_pow bits power
  have page : (2 ^ 18 ||| p) ^^^ 2 ^ n = 2 ^ 18 ||| (p ^^^ 2 ^ n) := by
    apply Nat.eq_of_testBit_eq
    intro i
    rw [Nat.testBit_xor, Nat.testBit_or, Nat.testBit_or, Nat.testBit_xor, Nat.testBit_two_pow, Nat.testBit_two_pow]
    by_cases top : 18 = i
    · have other : n ≠ i := by omega
      have low : p.testBit i = false :=
        Nat.testBit_lt_two_pow (Nat.lt_of_lt_of_le bits (Nat.pow_le_pow_right (by omega) (by omega)))
      simp [top, other, low]
    · simp [top]
  have back := @pageToVirt_eq (p ^^^ 2 ^ n) (by omega)
  rw [buddyOf, pageToVirt_eq (by omega), allocsize_eq, ← Nat.shiftLeft_xor_distrib, page, ← back,
    virtToPage, pageToVirt, vmmStartVirt, pagesize, Nat.shiftRight_eq_div_pow]
  omega

theorem virt_and_size (small : p < numOfPages) (order : n < 12) :
    pageToVirt p &&& Mm.allocsize n ≠ 0 ↔ p.testBit n = true := by
  have bits : p < 2 ^ 15 := small
  have both : (pageToVirt p &&& Mm.allocsize n) = (p &&& 2 ^ n) <<< 12 := by
    rw [pageToVirt_eq (by omega), allocsize_eq, ← Nat.shiftLeft_and_distrib]
    congr 1
    apply Nat.eq_of_testBit_eq
    intro i
    rw [Nat.testBit_and, Nat.testBit_and, Nat.testBit_or, Nat.testBit_two_pow, Nat.testBit_two_pow]
    by_cases bit : n = i
    · have other : 18 ≠ i := by omega
      simp [bit, other]
    · simp [bit]
  rw [both, Nat.shiftLeft_eq, ne_eq, Nat.mul_eq_zero, Nat.and_two_pow]
  cases p.testBit n with
  | false => simp
  | true =>
    simp

end Buddy

end DisasVisor.Mm
