import DisasVisor.Lib.Transitions
import DisasVisor.SeMemory.SortedList

/-!
Whatever is done with an `SE_LIST`, it has the items that were put in and not taken out, and what it
says about its order is true.
-/

namespace DisasVisor.SeMemory

open Function Rearrangements

variable {cmp : ℕ → ℕ → ℤ} {o o' : SeList} {held : Multiset ℕ} {fuel turns p target : ℕ}
  {a : ℤ → ℕ} {call : ListCall} {calls : List ListCall} {low high pos : ℤ} {num : ℕ}

structure Holds (cmp : ℕ → ℕ → ℤ) (held : Multiset ℕ) (o : SeList) : Prop where
  isCmp : o.cmp = some cmp
  contents : before o.p o.numItem = held
  notNull : 0 ∉ held
  reserved : o.numItem ≤ o.numReserved
  room : 8 * o.numReserved ≤ o.allocated
  few : o.numReserved < 0x20000000
  sorted : o.sorted = true → Sorted cmp o.p o.numItem

def ListCall.after : ListCall → Multiset ℕ → Multiset ℕ
  | add p, held => if p = 0 then held else p ::ₘ held
  | insert p, held => if p = 0 then held else p ::ₘ held
  | delete p, held => held.erase p
  | _, held => held

def CanGrow (o : SeList) : Prop := o.numItem = o.numReserved → 0 < o.numReserved ∧ o.numReserved < 0x10000000

def ListCall.Fits (o : SeList) : ListCall → Prop
  | add p => p ≠ 0 → CanGrow o
  | insert p => p ≠ 0 → CanGrow o
  | _ => True

theorem seNewList_holds : Holds cmp 0 (seNewList (some cmp)) := by
  refine ⟨rfl, by simp [seNewList, before], by simp, Nat.zero_le 32, Nat.le_refl 256,
    show 32 < 0x20000000 by omega, ?_⟩
  intro _ i j positive less below
  change j < ((0 : ℕ) : ℤ) at below
  omega

theorem grow_p : (grow o).p = o.p ∧ (grow o).cmp = o.cmp ∧ (grow o).sorted = o.sorted := by
  unfold grow
  simp only
  split <;> exact ⟨rfl, rfl, rfl⟩

theorem grow_spec (holds : Holds cmp held o) (fits : CanGrow o) :
    (grow o).numItem = o.numItem + 1 ∧ (grow o).numItem ≤ (grow o).numReserved ∧
      8 * (grow o).numReserved ≤ (grow o).allocated ∧ (grow o).numReserved < 0x20000000 := by
  have reserved := holds.reserved
  have room := holds.room
  have few := holds.few
  have one : uint (o.numItem + 1) = o.numItem + 1 := Nat.mod_eq_of_lt (by omega)
  unfold grow
  simp only [one]
  by_cases full : o.numItem + 1 > o.numReserved
  · obtain ⟨positive, bound⟩ := fits (by omega)
    have twice : uint (o.numReserved * 2) = o.numReserved * 2 := Nat.mod_eq_of_lt (by omega)
    have bytes : uint (8 * (o.numReserved * 2)) = 8 * (o.numReserved * 2) := Nat.mod_eq_of_lt (by omega)
    rw [if_pos full]
    simp only [twice, bytes, true_and]
    omega
  · rw [if_neg full]
    simp only [true_and]
    omega

theorem grow_overflow (holds : Holds cmp held o) (full : ¬CanGrow o) : (grow o).allocated < 8 * (grow o).numItem := by
  have few := holds.few
  have isFull : o.numItem = o.numReserved := by
    by_contra notFull
    exact full fun same => absurd same notFull
  have broken : o.numReserved = 0 ∨ 0x10000000 ≤ o.numReserved := by
    by_contra fine
    exact full fun _ => by omega
  have one : uint (o.numItem + 1) = o.numItem + 1 := Nat.mod_eq_of_lt (by omega)
  have twice : uint (o.numReserved * 2) = o.numReserved * 2 := Nat.mod_eq_of_lt (by omega)
  have bytes : uint (8 * (o.numReserved * 2)) < 8 * (o.numReserved + 1) := by
    unfold uint
    rcases broken with none' | many
    · rw [none']
      decide
    · omega
  unfold grow
  simp only [one]
  rw [if_pos (by omega)]
  simp only [twice]
  omega

theorem seAdd_spec (holds : Holds cmp held o) (notNull : p ≠ 0) (fits : CanGrow o) :
    Holds cmp (p ::ₘ held) (seAdd o p) := by
  obtain ⟨count, reserved, room, few⟩ := grow_spec holds fits
  unfold seAdd
  rw [if_neg notNull]
  refine ⟨grow_p.2.1.trans holds.isCmp, ?_, ?_, reserved, room, few, nofun⟩
  · simp only [count]
    rw [before_succ, update_self, ← holds.contents, before_congr]
    intro i positive below
    rw [update_of_ne (by omega)]
  · simp [holds.notNull, Ne.symm notNull]

theorem moveUp_spec {count : ℕ} : (∀ i, i ≤ pos ∨ pos + count < i → moveUp pos count a i = a i) ∧
    ∀ i, pos ≤ i → i < pos + count → moveUp pos count a (i + 1) = a i := by
  induction count generalizing a with
  | zero =>
    refine ⟨fun _ _ => rfl, ?_⟩
    intro i above below
    omega
  | succ count ih =>
    obtain ⟨kept, moved⟩ := @ih (update a (pos + count + 1) (a (pos + count)))
    unfold moveUp
    constructor
    · intro i outside
      rw [kept i (by omega), update_of_ne (by omega)]
    · intro i above below
      by_cases last : i = pos + count
      · rw [kept (i + 1) (by omega), last, update_self]
      · rw [moved i above (by omega), update_of_ne (by omega)]

theorem moveDown_spec {count : ℕ} {i : ℤ} :
    (∀ j, j < i ∨ i + count ≤ j → moveDown count i a j = a j) ∧
      ∀ j, i ≤ j → j < i + count → moveDown count i a j = a (j + 1) := by
  induction count generalizing a i with
  | zero =>
    refine ⟨fun _ _ => rfl, ?_⟩
    intro j above below
    omega
  | succ count ih =>
    obtain ⟨kept, moved⟩ := @ih (update a i (a (i + 1))) (i + 1)
    unfold moveDown
    constructor
    · intro j outside
      rw [kept j (by omega), update_of_ne (by omega)]
    · intro j above below
      by_cases first : j = i
      · rw [kept j (by omega), first, update_self]
      · rw [moved j (by omega) (by omega), update_of_ne (by omega)]

theorem firstAt_spec {count : ℕ} {i : ℤ} :
    match firstAt a p count i with
    | none => ∀ j, i ≤ j → j < i + count → a j ≠ p
    | some n => i ≤ n ∧ n < i + count ∧ a n = p := by
  induction count generalizing i with
  | zero =>
    intro j above below
    omega
  | succ count ih =>
    unfold firstAt
    by_cases here : a i = p
    · rw [if_pos here]
      exact ⟨le_refl i, by omega, here⟩
    · rw [if_neg here]
      have later := @ih (i + 1)
      cases found : firstAt a p count (i + 1) with
      | none =>
        rw [found] at later
        intro j above below
        by_cases first : j = i
        · rw [first]
          exact here
        · exact later j (by omega) (by omega)
      | some n =>
        rw [found] at later
        obtain ⟨above, below, same⟩ := later
        exact ⟨by omega, by omega, same⟩

theorem seDelete_spec (holds : Holds cmp held o) : Holds cmp (held.erase p) (seDelete o p).2 := by
  obtain ⟨isCmp, contents, notNull, reserved, room, few, sorted⟩ := holds
  unfold seDelete
  by_cases isNull : p = 0
  · rw [if_pos isNull, isNull, Multiset.erase_of_notMem notNull]
    exact ⟨isCmp, contents, notNull, reserved, room, few, sorted⟩
  · rw [if_neg isNull]
    have search := @firstAt_spec p o.p o.numItem 0
    cases found : firstAt o.p p o.numItem 0 with
    | none =>
      rw [found] at search
      have absent : p ∉ held := by
        rw [← contents, mem_before]
        rintro ⟨i, positive, below, same⟩
        exact search i positive (by omega) same
      rw [Multiset.erase_of_notMem absent]
      exact ⟨isCmp, contents, notNull, reserved, room, few, sorted⟩
    | some n =>
      rw [found] at search
      obtain ⟨positive, below, here⟩ := search
      obtain ⟨count, isCount⟩ : ∃ count, o.numItem = count + 1 := ⟨o.numItem - 1, by omega⟩
      obtain ⟨kept, moved⟩ := @moveDown_spec o.p (o.numItem - 1 - n).toNat n
      generalize isMoved : moveDown (o.numItem - 1 - n).toNat n o.p = b at kept moved
      have items : before b count = held.erase p := by
        have taken : before o.p (count + 1) = p ::ₘ before b count :=
          before_remove positive (by omega) (fun i _ below => kept i (by omega)) here
            fun i above below => moved i above (by omega)
        rw [← contents, isCount, taken, Multiset.erase_cons_head]
      have inOrder : o.sorted = true → Sorted cmp b count := by
        intro isSorted i j positive less below
        have back : ∀ k : ℤ, 0 ≤ k → k < count → ∃ k', b k = o.p k' ∧ ((k < n ∧ k' = k) ∨ (n ≤ k ∧ k' = k + 1)) := by
          intro k _ bound
          by_cases before : k < n
          · exact ⟨k, kept k (.inl before), .inl ⟨before, rfl⟩⟩
          · exact ⟨k + 1, moved k (by omega) (by omega), .inr ⟨by omega, rfl⟩⟩
        obtain ⟨i', sameI, whereI⟩ := back i positive (by omega)
        obtain ⟨j', sameJ, whereJ⟩ := back j (by omega) below
        rw [sameI, sameJ]
        exact sorted isSorted i' j' (by omega) (by omega) (by omega)
      have notNull' : 0 ∉ held.erase p := fun member => notNull (Multiset.mem_of_mem_erase member)
      have one : o.numItem - 1 = count := by omega
      simp only [one, isMoved]
      split
      · rename_i halve
        have bytes : uint (8 * (o.numReserved / 2)) = 8 * (o.numReserved / 2) := Nat.mod_eq_of_lt (by omega)
        exact ⟨isCmp, items, notNull', show count ≤ o.numReserved / 2 by omega,
          le_of_eq bytes.symm, show o.numReserved / 2 < 0x20000000 by omega, inOrder⟩
      · exact ⟨isCmp, items, notNull', show count ≤ o.numReserved by omega, room, few, inOrder⟩

theorem seCloneList_spec (holds : Holds cmp held o) : Holds cmp held (seCloneList o) := by
  obtain ⟨isCmp, contents, notNull, reserved, room, few, sorted⟩ := holds
  have copied : ∀ i : ℤ, 0 ≤ i → i < o.numItem → (seToArray o).1 i = o.p i :=
    fun i positive below => if_pos ⟨positive, below⟩
  have bytes : uint (8 * o.numItem) = 8 * o.numItem := Nat.mod_eq_of_lt (by omega)
  refine ⟨isCmp, (before_congr copied).trans contents, notNull, Nat.le_refl o.numItem,
    le_of_eq bytes.symm, show o.numItem < 0x20000000 by omega, ?_⟩
  intro isSorted i j positive less below
  change cmp ((seToArray o).1 i) ((seToArray o).1 j) ≤ 0
  change j < o.numItem at below
  rw [copied i positive (by omega), copied j (by omega) below]
  exact sorted isSorted i j positive less below

section

variable (compares : Compares cmp)
include compares

section

variable (holds : Holds cmp held o) (enough : o.numItem + 1 ≤ fuel)
include holds enough

theorem seSort_spec :
    ∃ o', seSort fuel o = some o' ∧ Holds cmp held o' ∧ Sorted cmp o'.p o'.numItem ∧
      o' = { o with p := o'.p, sorted := true } := by
  have bound : o.numItem < 0x20000000 := lt_of_le_of_lt holds.reserved holds.few
  obtain ⟨a, result, moved, sorted⟩ := @seQSort_spec ℕ cmp o.p fuel o.numItem compares bound enough
  refine ⟨{ o with p := a, sorted := true }, ?_, ?_, sorted, rfl⟩
  · simp only [seSort, holds.isCmp, result, Option.map_some]
  · exact ⟨holds.isCmp, moved.before_eq.trans holds.contents, holds.notNull, holds.reserved, holds.room,
      holds.few, fun _ => sorted⟩

theorem sortFirst_spec :
    ∃ o', sortFirst fuel o = some o' ∧ Holds cmp held o' ∧
      Sorted cmp o'.p o'.numItem ∧ o'.numItem = o.numItem ∧ o'.numReserved = o.numReserved := by
  unfold sortFirst
  by_cases notSorted : o.sorted = false
  · obtain ⟨o', result, holds', sorted, rest⟩ := seSort_spec compares holds enough
    refine ⟨o', by rw [if_pos notSorted, result], holds', sorted, ?_, ?_⟩
    · rw [rest]
    · rw [rest]
  · exact ⟨o, if_neg notSorted, holds, holds.sorted (by simpa using notSorted), rfl, rfl⟩

theorem seSearch_spec (notNull : target ≠ 0) :
    ∃ r o', seSearch fuel o target = some (r, o') ∧ Holds cmp held o' ∧
      (r ≠ 0 → r ∈ held ∧ cmp target r = 0) ∧ (r = 0 → ∀ x ∈ held, cmp target x ≠ 0) := by
  obtain ⟨o', first, holds', sorted, same, -⟩ := sortFirst_spec compares holds enough
  have bound : o'.numItem < 0x20000000 := lt_of_le_of_lt holds'.reserved holds'.few
  obtain ⟨ret, result, found⟩ := @seBSearch_spec ℕ cmp o'.p fuel o'.numItem compares target bound sorted (by omega)
  unfold seSearch
  rw [if_neg notNull]
  simp only [holds.isCmp, first, Option.bind_eq_bind, Option.bind_some, result]
  cases ret with
  | none =>
    refine ⟨0, o', rfl, holds', fun some' => absurd rfl some', ?_⟩
    intro _ x member
    rw [← holds'.contents, mem_before] at member
    obtain ⟨i, positive, below, rfl⟩ := member
    exact found i positive below
  | some i =>
    obtain ⟨positive, below, equal⟩ := found
    have member : o'.p i ∈ held := by
      rw [← holds'.contents, mem_before]
      exact ⟨i, positive, below, rfl⟩
    refine ⟨o'.p i, o', rfl, holds', fun _ => ⟨member, equal⟩, ?_⟩
    intro isNull
    rw [isNull] at member
    exact absurd member holds'.notNull

end

theorem findPos_spec (sorted : Sorted cmp a num) (lower : 0 ≤ low) (order : low ≤ high + 1)
    (upper : high < num) (smaller : ∀ i, 0 ≤ i → i < low → cmp (a i) p ≤ 0)
    (greater : ∀ i, high < i → i < num → cmp p (a i) ≤ 0) (enough : high + 1 - low < turns) :
    ∃ pos, findPos cmp a p turns low high = some pos ∧ 0 ≤ pos ∧ pos ≤ num ∧
      (∀ i, 0 ≤ i → i < pos → cmp (a i) p ≤ 0) ∧ ∀ i, pos ≤ i → i < num → cmp p (a i) ≤ 0 := by
  induction turns generalizing low high with
  | zero => omega
  | succ turns ih =>
    unfold findPos
    by_cases inRange : low ≤ high
    swap
    · rw [if_neg inRange]
      exact ⟨low, rfl, lower, by omega, smaller, fun i above below => greater i (by omega) below⟩
    rw [if_pos inRange]
    generalize isMiddle : (low + high) / 2 = middle
    have within : low ≤ middle ∧ middle ≤ high := by omega
    -- what is known of the item in the middle holds on its side
    have before : cmp (a middle) p ≤ 0 → ∀ i, 0 ≤ i → i < middle → cmp (a i) p ≤ 0 :=
      fun le i positive below =>
        compares.trans _ _ _ (sorted i middle positive below (by omega)) le
    have behind : cmp p (a middle) ≤ 0 → ∀ i, middle < i → i < num → cmp p (a i) ≤ 0 :=
      fun le i above below => compares.trans _ _ _ le (sorted middle i (by omega) above below)
    simp only
    by_cases equal : cmp (a middle) p = 0
    · rw [if_pos equal]
      have back := compares.symm equal
      refine ⟨middle, rfl, by omega, by omega, before (by omega), ?_⟩
      intro i above below
      by_cases here : i = middle
      · rw [here]
        omega
      · exact behind (by omega) i (by omega) below
    · rw [if_neg equal]
      by_cases more : cmp (a middle) p > 0
      · have back : cmp p (a middle) ≤ 0 := compares.total (by omega)
        rw [if_pos more]
        refine ih lower (by omega) (by omega) smaller ?_ (by omega)
        intro i above below
        by_cases here : i = middle
        · rw [here]
          exact back
        · exact behind back i (by omega) below
      · rw [if_neg more]
        refine ih (by omega) (by omega) upper ?_ greater (by omega)
        intro i positive below
        by_cases here : i = middle
        · rw [here]
          omega
        · exact before (by omega) i positive (by omega)

variable (holds : Holds cmp held o)
include holds

theorem seInsert_spec (enough : o.numItem + 1 ≤ fuel) (notNull : p ≠ 0)
    (fits : CanGrow o) : ∃ o', seInsert fuel o p = some o' ∧ Holds cmp (p ::ₘ held) o' := by
  obtain ⟨first, isFirst, holds', sorted, sameItem, sameReserved⟩ := sortFirst_spec compares holds enough
  have fits' : CanGrow first := by
    unfold CanGrow
    rw [sameItem, sameReserved]
    exact fits
  obtain ⟨pos, found, positive, bound, smaller, greater⟩ := @findPos_spec cmp fuel p first.p 0
    (first.numItem - 1) first.numItem compares sorted (le_refl 0) (by omega) (by omega) (by omega)
    (by omega) (by omega)
  obtain ⟨count, reserved, room, few⟩ := grow_spec holds' fits'
  obtain ⟨kept, moved⟩ := @moveUp_spec first.p pos (first.numItem - pos).toNat
  unfold seInsert
  rw [if_neg notNull]
  simp only [holds.isCmp, isFirst, Option.bind_eq_bind, Option.bind_some, found]
  generalize moveUp pos (first.numItem - pos).toNat first.p = b at kept moved
  have front : ∀ i, 0 ≤ i → i < pos → update b pos p i = first.p i := by
    intro i _ below
    rw [update_of_ne (by omega), kept i (by omega)]
  have back : ∀ i, pos ≤ i → i < first.numItem → update b pos p (i + 1) = first.p i := by
    intro i above below
    rw [update_of_ne (by omega), moved i above (by omega)]
  refine ⟨_, rfl, grow_p.2.1.trans holds'.isCmp, ?_, ?_, reserved, room, few, ?_⟩
  · simp only [count]
    rw [before_insert positive bound front (update_self _ _ _) back, holds'.contents]
  · simp [holds.notNull, Ne.symm notNull]
  · intro _ i j positiveI less below
    simp only [count] at below ⊢
    have before : ∀ k : ℤ, 0 ≤ k → k ≤ first.numItem → ∃ x, update b pos p k = x ∧
        ((k < pos ∧ x = first.p k) ∨ (k = pos ∧ x = p) ∨ (pos < k ∧ x = first.p (k - 1))) := by
      intro k positiveK boundK
      refine ⟨_, rfl, ?_⟩
      by_cases early : k < pos
      · exact .inl ⟨early, front k positiveK early⟩
      · by_cases here : k = pos
        · rw [here]
          exact .inr (.inl ⟨rfl, update_self _ _ _⟩)
        · have late := back (k - 1) (by omega) (by omega)
          rw [sub_add_cancel] at late
          exact .inr (.inr ⟨by omega, late⟩)
    obtain ⟨x, sameI, whereI⟩ := before i positiveI (by omega)
    obtain ⟨y, sameJ, whereJ⟩ := before j (by omega) (by omega)
    rw [sameI, sameJ]
    rcases whereI with ⟨earlyI, rfl⟩ | ⟨atI, rfl⟩ | ⟨lateI, rfl⟩
    · rcases whereJ with ⟨earlyJ, rfl⟩ | ⟨atJ, rfl⟩ | ⟨lateJ, rfl⟩
      · exact sorted i j positiveI less (by omega)
      · exact smaller i positiveI earlyI
      · exact compares.trans _ _ _ (smaller i positiveI earlyI) (greater (j - 1) (by omega) (by omega))
    · rcases whereJ with ⟨earlyJ, rfl⟩ | ⟨atJ, rfl⟩ | ⟨lateJ, rfl⟩
      · omega
      · omega
      · exact greater (j - 1) (by omega) (by omega)
    · rcases whereJ with ⟨earlyJ, rfl⟩ | ⟨atJ, rfl⟩ | ⟨lateJ, rfl⟩
      · omega
      · omega
      · exact sorted (i - 1) (j - 1) (by omega) (by omega) (by omega)

theorem seInsert_overflow (enough : o.numItem + 1 ≤ fuel) (notNull : p ≠ 0)
    (full : ¬CanGrow o) : ∃ o', seInsert fuel o p = some o' ∧ o'.allocated < 8 * o'.numItem := by
  obtain ⟨first, isFirst, holds', sorted, sameItem, sameReserved⟩ := sortFirst_spec compares holds enough
  have full' : ¬CanGrow first := by
    unfold CanGrow
    rw [sameItem, sameReserved]
    exact full
  obtain ⟨pos, found, -⟩ := @findPos_spec cmp fuel p first.p 0 (first.numItem - 1) first.numItem compares
    sorted (le_refl 0) (by omega) (by omega) (by omega) (by omega) (by omega)
  unfold seInsert
  rw [if_neg notNull]
  simp only [holds.isCmp, isFirst, Option.bind_eq_bind, Option.bind_some, found]
  exact ⟨_, rfl, grow_overflow holds' full'⟩

theorem run_spec (enough : o.numItem < fuel) (fits : call.Fits o) :
    ∃ o', call.run fuel o = some o' ∧ Holds cmp (call.after held) o' := by
  cases call with
  | add p =>
    refine ⟨_, rfl, ?_⟩
    by_cases isNull : p = 0
    · simp only [ListCall.after, isNull, if_true, seAdd]
      exact holds
    · simp only [ListCall.after, if_neg isNull]
      exact seAdd_spec holds isNull (fits isNull)
  | insert p =>
    by_cases isNull : p = 0
    · refine ⟨o, if_pos isNull, ?_⟩
      simp only [ListCall.after, if_pos isNull]
      exact holds
    · simp only [ListCall.after, if_neg isNull]
      exact seInsert_spec compares holds enough isNull (fits isNull)
  | delete p => exact ⟨_, rfl, seDelete_spec holds⟩
  | search target =>
    by_cases isNull : target = 0
    · refine ⟨o, ?_, holds⟩
      simp only [ListCall.run, seSearch, if_pos isNull, Option.map_some]
    · obtain ⟨r, o', result, holds', -⟩ := seSearch_spec compares holds enough isNull
      refine ⟨o', ?_, holds'⟩
      simp only [ListCall.run, result, Option.map_some]
  | sort =>
    obtain ⟨o', result, holds', -⟩ := seSort_spec compares holds enough
    exact ⟨o', result, holds'⟩
  | clone => exact ⟨_, rfl, seCloneList_spec holds⟩

theorem run_overflow (enough : o.numItem < fuel) (unfit : ¬call.Fits o) :
    ∃ o', call.run fuel o = some o' ∧ o'.allocated < 8 * o'.numItem := by
  cases call with
  | add p =>
    obtain ⟨notNull, full⟩ := Classical.not_imp.mp unfit
    refine ⟨_, rfl, ?_⟩
    unfold seAdd
    rw [if_neg notNull]
    exact grow_overflow holds full
  | insert p =>
    obtain ⟨notNull, full⟩ := Classical.not_imp.mp unfit
    exact seInsert_overflow compares holds enough notNull full
  | delete p => exact absurd trivial unfit
  | search target => exact absurd trivial unfit
  | sort => exact absurd trivial unfit
  | clone => exact absurd trivial unfit

end

def Step (o : SeList) (call : ListCall) (o' : SeList) : Prop := ∃ fuel, o.numItem < fuel ∧ call.run fuel o = some o'

def heldAfter (calls : List ListCall) : Multiset ℕ := calls.foldl (fun held call => call.after held) 0

theorem run_holds (compares : Compares cmp) (start : Holds cmp held o)
    (run : Transitions.Run (fun o call o' => call.Fits o ∧ Step o call o') o calls o') :
    Holds cmp (calls.foldl (fun held call => call.after held) held) o' := by
  induction run generalizing held with
  | nil => exact start
  | cons step _ ih =>
    obtain ⟨fits, fuel, enough, result⟩ := step
    obtain ⟨next, isNext, holds⟩ := run_spec compares start enough fits
    rw [isNext] at result
    cases result
    exact ih holds

/-- As long as no array is to grow that cannot, a list has the items that were put in and not taken
out, has room for them and is sorted when it says so; it is sorted and searched with the stacks that
there are; and the next call has room exactly if the array can grow where it has to. -/
theorem sortedList_run (compares : Compares cmp)
    (run : Transitions.Run (fun o call o' => call.Fits o ∧ Step o call o') (seNewList (some cmp))
      calls o) :
    before o.p o.numItem = heldAfter calls ∧ o.numItem ≤ o.numReserved ∧
      8 * o.numReserved ≤ o.allocated ∧ (o.sorted = true → Sorted cmp o.p o.numItem) ∧
      ∀ fuel, o.numItem < fuel →
        (∃ a, seQSort cmp fuel o.p o.numItem = some a ∧ before a o.numItem = before o.p o.numItem ∧
          Sorted cmp a o.numItem) ∧
        (∀ target ≠ 0, ∃ r o', seSearch fuel o target = some (r, o') ∧
          (r ≠ 0 → r ∈ heldAfter calls ∧ cmp target r = 0) ∧
          (r = 0 → ∀ x ∈ heldAfter calls, cmp target x ≠ 0)) ∧
        ∀ call : ListCall, ∃ o', call.run fuel o = some o' ∧ (8 * o'.numItem ≤ o'.allocated ↔ call.Fits o) := by
  have holds : Holds cmp (heldAfter calls) o := run_holds compares seNewList_holds run
  have few : o.numItem < 0x20000000 := lt_of_le_of_lt holds.reserved holds.few
  refine ⟨holds.contents, holds.reserved, holds.room, holds.sorted, ?_⟩
  intro fuel enough
  refine ⟨?_, ?_, ?_⟩
  · obtain ⟨a, result, moved, sorted⟩ := @seQSort_spec ℕ cmp o.p fuel o.numItem compares few enough
    exact ⟨a, result, moved.before_eq, sorted⟩
  · intro target notNull
    obtain ⟨r, o', result, -, present, absent⟩ := seSearch_spec compares holds enough notNull
    exact ⟨r, o', result, present, absent⟩
  · intro call
    by_cases fits : call.Fits o
    · obtain ⟨o', result, holds'⟩ := run_spec compares holds enough fits
      have reserved := holds'.reserved
      have room := holds'.room
      exact ⟨o', result, iff_of_true (by omega) fits⟩
    · obtain ⟨o', result, overflow⟩ := run_overflow compares holds enough fits
      exact ⟨o', result, iff_of_false (by omega) fits⟩

def byAddress (x y : ℕ) : ℤ := x - y

theorem byAddress_compares : Compares byAddress := by
  constructor
  · intro x y
    unfold byAddress
    omega
  · intro x y z
    unfold byAddress
    omega

theorem sortedList_run_insert : ∃ o, seInsert 1 (seNewList (some byAddress)) 5 = some o ∧
    before o.p o.numItem = {5} := by
  refine ⟨_, rfl, ?_⟩
  have step : Step (seNewList (some byAddress)) (.insert 5) _ := ⟨1, Nat.one_pos, rfl⟩
  have fits : (ListCall.insert 5).Fits (seNewList (some byAddress)) := fun _ full => by cases full
  exact (sortedList_run byAddress_compares (Transitions.Run.cons ⟨fits, step⟩ (Transitions.Run.nil _))).1

/-- A clone of an empty list has no room, and gets none. -/
theorem empty_clone_overflows :
    ∃ o, Transitions.Run Step (seNewList (some byAddress)) [.clone, .add 5] o ∧
      o.numReserved < o.numItem ∧ o.allocated < 8 * o.numItem := by
  have clone : Step (seNewList (some byAddress)) .clone _ := ⟨1, Nat.one_pos, rfl⟩
  have add : Step (seCloneList (seNewList (some byAddress))) (.add 5) _ := ⟨1, Nat.one_pos, rfl⟩
  exact ⟨_, Transitions.Run.cons clone (Transitions.Run.cons add (Transitions.Run.nil _)),
    by decide, by decide⟩

end DisasVisor.SeMemory
