import DisasVisor.Mm.ProcessLedger

/-!
Shared windows, stacks and the end of a process: what these operations take and give back, and
which entries they leave as they are.
-/

namespace DisasVisor.Mm

open Ledgers Loops List

namespace ProcessSpace

variable {s : ProcessSpace} {lent rest : List Nat} {room page : Nat}

def Window (s : ProcessSpace) (page count : Nat) : Prop :=
  page + count ≤ 0x30000 ∧ ∀ k < count, s.read (page + k) = none

theorem windowDown_window (taken : Nat) (sum : taken + rest.length = lent.length)
    (start : s.Window (0x20000 + room) taken) (found : s.windowDown lent room rest = .ok page) :
    s.Window page lent.length := by
  fun_induction s.windowDown lent room rest generalizing taken with
  | case1 =>
    cases found
    have all : taken = lent.length := sum
    exact all ▸ start
  | case2 => cases found
  | case3 => cases found
  | case4 room _ _ _ _ ih =>
    have low := start.1
    refine ih 0 (Nat.zero_add _) ⟨by omega, ?_⟩ found
    intro k below
    omega
  | case5 room _ rest _ absent ih =>
    obtain ⟨low, free⟩ := start
    rw [length_cons] at sum
    refine ih (taken + 1) (by omega) ⟨by omega, ?_⟩ found
    intro k below
    cases k with
    | zero => simpa using absent
    | succ k =>
      have next := free k (by omega)
      rwa [show 0x20000 + room + (k + 1) = 0x20000 + (room + 1) + k by omega]

theorem windowUp_window (taken : Nat) (sum : taken + rest.length = lent.length)
    (small : taken + room ≤ 0x10000) (start : s.Window (0x30000 - room - taken) taken)
    (found : s.windowUp lent room rest = .ok page) : s.Window (page - lent.length) lent.length := by
  fun_induction s.windowUp lent room rest generalizing taken with
  | case1 =>
    cases found
    have all : taken = lent.length := sum
    exact all ▸ start
  | case2 => cases found
  | case3 => cases found
  | case4 room _ _ _ _ ih =>
    refine ih 0 (Nat.zero_add _) (by omega) ⟨by omega, ?_⟩ found
    intro k below
    omega
  | case5 room _ rest _ absent ih =>
    obtain ⟨low, free⟩ := start
    rw [length_cons] at sum
    refine ih (taken + 1) (by omega) (by omega) ⟨by omega, ?_⟩ found
    intro k below
    by_cases last : k = taken
    · rw [last, show 0x30000 - room - (taken + 1) + taken = 0x30000 - (room + 1) by omega]
      simpa using absent
    · have earlier := free k (by omega)
      rwa [show 0x30000 - room - (taken + 1) + k = 0x30000 - (room + 1) - taken + k by omega]

theorem window_window {pre : Bool} (found : s.window lent pre = .ok page) : s.Window page lent.length := by
  rw [window] at found
  split at found
  · cases up : s.windowUp lent 0x10000 lent with
    | error stop =>
      rw [up] at found
      cases found
    | ok last =>
      rw [up] at found
      cases found
      refine windowUp_window 0 (Nat.zero_add _) (by omega) ⟨by omega, ?_⟩ up
      intro k below
      omega
  · refine windowDown_window 0 (Nat.zero_add _) ⟨by omega, ?_⟩ found
    intro k below
    omega

end ProcessSpace

theorem lentPages_length {buf : UInt64} {len : UInt32} {lent : List Nat} (found : lentPages buf len = some lent) :
    lent = [] ∨ lent.length = (len.toNat + buf.toNat % 4096 + 4095) / 4096 := by
  simp only [lentPages] at found
  split at found
  · cases found
  · cases found
    have small := len.toNat_lt
    have low := buf.toNat_lt
    have wraps : (buf + len.toUInt64).toNat = (buf.toNat + len.toNat) % 2 ^ 64 := by
      rw [UInt64.toNat_add, UInt32.toNat_toUInt64]
    rw [wraps]
    by_cases some' : buf.toNat / 4096 * 4096 < (buf.toNat + len.toNat) % 2 ^ 64
    · refine .inr ?_
      rw [length_map, length_range]
      omega
    · refine .inl ?_
      have none' : ((buf.toNat + len.toNat) % 2 ^ 64 - buf.toNat / 4096 * 4096 + 4095) / 4096 = 0 := by omega
      rw [none']
      rfl

namespace Running

variable {r r' r'' : Running} {page virt len : Nat}

def Keeps (r r' : Running) : Prop :=
  ∀ page pte, r.space.read page = some pte →
    ∃ mark, r'.space.read page = some { pte with available1 := mark } ∧ (mark = true → pte.available1 = true)

theorem keeps_of_read (same : ∀ page, r'.space.read page = r.space.read page) : Keeps r r' := by
  intro page pte present
  exact ⟨pte.available1, (same page).trans present, id⟩

theorem Keeps.trans (first : Keeps r r') (next : Keeps r' r'') : Keeps r r'' := by
  intro page pte present
  obtain ⟨mark, present', marked⟩ := first page pte present
  obtain ⟨mark', present'', marked'⟩ := next page _ present'
  exact ⟨mark', present'', fun is => marked (marked' is)⟩

variable {rw' noalloc : Bool} {area : VmmArea}

theorem Sound.mapSharedLoop {procphys : Lender} {vmm : Nat → Option Nat} {mapped : Bool} (lent : List Nat)
    (sound : r.Sound) (done : r.mapSharedLoop procphys vmm rw' lent page = .ok (mapped, r')) :
    Leads r r' ∧ (∀ other, other < page ∨ page + lent.length ≤ other →
      r'.space.read other = r.space.read other) ∧ (lent = [] → mapped = true) := by
  induction lent generalizing r page with
  | nil =>
    cases done
    exact ⟨sound.leads, fun _ _ => rfl, fun _ => rfl⟩
  | cons virt lent ih =>
    simp only [Running.mapSharedLoop] at done
    split at done
    · cases done
      exact ⟨sound.leads, fun _ _ => rfl, fun same => by cases same⟩
    · obtain ⟨⟨taken, middle⟩, maps, rest⟩ := bind_ok.mp done
      obtain ⟨first, kept⟩ := sound.mmProcessMapSharedPhyspage maps
      obtain ⟨later, kept', -⟩ := ih (first.sound sound) rest
      refine ⟨first.trans later, fun other outside => ?_, fun same => by cases same⟩
      rw [length_cons] at outside
      rw [kept' other (by omega), kept other (by omega)]

theorem Sound.mmProcessMapShared {procphys : Lender} {vmm : Nat → Option Nat} {buf : UInt64} {len : UInt32}
    {pre : Bool} {result : Option Nat} (sound : r.Sound)
    (done : r.mmProcessMapShared procphys vmm buf len rw' pre = .ok (result, r')) :
    Leads r r' ∧
      (∀ page pte, r.space.read page = some pte → r'.space.read page = some pte) ∧
      (result = none → ∀ page, r'.space.read page = r.space.read page) := by
  simp only [Running.mmProcessMapShared] at done
  split at done
  · cases done
    exact ⟨sound.leads, fun _ _ present => present, fun _ _ => rfl⟩
  · split at done
    · cases done
    · rename_i lent pages
      obtain ⟨page, search, rest⟩ := bind_ok.mp done
      obtain ⟨⟨mapped, middle⟩, maps, rest⟩ := bind_ok.mp rest
      obtain ⟨high, free⟩ := ProcessSpace.window_window search
      obtain ⟨leads, kept, some'⟩ := Sound.mapSharedLoop lent sound maps
      have inWindow : ∀ other, other < page ∨ page + lent.length ≤ other ∨ r.space.read other = none := by
        intro other
        by_cases inside : page ≤ other ∧ other < page + lent.length
        · have empty := free (other - page) (by omega)
          rw [Nat.add_sub_cancel' inside.1] at empty
          exact .inr (.inr empty)
        · omega
      have first : (page * 4096 + buf.toNat % 4096) / 4096 = page := by omega
      have rest' : (page * 4096 + buf.toNat % 4096) % 4096 = buf.toNat % 4096 := by omega
      split at rest
      · cases rest
        refine ⟨leads, ?_, fun same => by cases same⟩
        intro other pte present
        rcases inWindow other with below | above | empty
        · rw [kept other (.inl below), present]
        · rw [kept other (.inr above), present]
        · rw [present] at empty
          cases empty
      · rename_i failed
        cases rest
        have long : lent ≠ [] := fun same => failed (some' same)
        have count := (lentPages_length pages).resolve_left long
        have restored : ∀ other, ((middle.mmProcessUnmap (page * 4096 + buf.toNat % 4096) len.toNat).getD
            middle).space.read other = r.space.read other := by
          intro other
          have inside : ¬(page * 4096 + buf.toNat % 4096 + len.toNat ≥ 0x40000000) := by omega
          cases unmaps : middle.mmProcessUnmap (page * 4096 + buf.toNat % 4096) len.toNat with
          | none => simp [Running.mmProcessUnmap, inside] at unmaps
          | some last =>
            have read := read_mmProcessUnmap unmaps other
            simp only [Option.getD_some, read, mem_pagesOf, first, rest', ← count]
            split
            · rename_i member
              rcases inWindow other with below | above | empty
              · omega
              · omega
              · exact empty.symm
            · exact kept other (by omega)
        have cleared := (leads.sound sound).unmapped (page * 4096 + buf.toNat % 4096) len.toNat
        exact ⟨leads.trans cleared.leads, fun other pte present => (restored other).trans present, fun _ => restored⟩

theorem Sound.writesOwn {p : Nat} {got : Running} {table : PageTable} {mark : Bool} (sound : r.Sound)
    (is : Got r p got) (found : r.space.table (page / 512) = some table) (absent : r.space.read page = none) :
    Leads r (got.write page (some { phys := p, rw := rw', available1 := mark, available2 := false })) := by
  have found' : got.space.table (page / 512) = some table := is.space ▸ found
  have empty : r.ledger.owner (.entry page) = none := by simp [ledger, ProcessSpace.owner, absent]
  refine ⟨is.tidy, tables_write (is.tables sound), ?_⟩
  have writes : (got.write page (some { phys := p, rw := rw', available1 := mark, available2 := false })).ledger =
      got.ledger.assign (.entry page) p := by
    rw [ledger, Running.write, ProcessSpace.owner_write found']
    rfl
  rw [writes, is.ledger, Ledger.assign_reserve]
  exact Ledger.Moves.take empty is.unused

theorem keeps_write {pte : Option Pte} {table : PageTable} (found : r.space.table (page / 512) = some table)
    (like : ∀ before, r.space.read page = some before →
      ∃ mark, pte = some { before with available1 := mark } ∧ (mark = true → before.available1 = true)) :
    Keeps r (r.write page pte) := by
  intro other before present
  by_cases same : other = page
  · obtain ⟨mark, is, marked⟩ := like before (same ▸ present)
    refine ⟨mark, ?_, marked⟩
    rw [same]
    exact (ProcessSpace.read_write found).trans is
  · exact ⟨before.available1, (ProcessSpace.read_write_ne same).trans present, id⟩

theorem Sound.mmProcessMapstack {virt : UInt64} {mapped : Bool} (sound : r.Sound)
    (done : r.mmProcessMapstack area virt noalloc = .ok (mapped, r')) : Leads r r' ∧ Keeps r r' := by
  rw [Running.mmProcessMapstack] at done
  split at done
  · rename_i below
    rw [UInt64.lt_iff_toNat_lt] at below
    have inside : virt.toNat < 0x40000000 := below
    obtain ⟨middle, alloc, rest⟩ := bind_ok.mp done
    have first := sound.autoalloc (show virt.toNat / 4096 < 0x40000 by omega) alloc
    obtain ⟨⟨table, found⟩, read⟩ := ready_autoalloc sound alloc
    have same := keeps_of_read read
    simp only at rest
    split at rest
    · rename_i absent
      split at rest
      · cases rest
        exact ⟨first, same⟩
      · obtain ⟨⟨p, got⟩, alloc', rest⟩ := bind_ok.mp rest
        cases rest
        have is := (first.sound sound).allocPage alloc'
        refine ⟨first.trans ((first.sound sound).writesOwn is found absent), ?_⟩
        refine (same.trans (keeps_of_read fun _ => by rw [is.space])).trans ?_
        refine keeps_write (is.space ▸ found) fun before present => ?_
        rw [is.space, absent] at present
        cases present
    · rename_i pte present
      cases rest
      constructor
      · refine first.trans ((first.sound sound).write found ?_).leads
        rw [ProcessSpace.owner, present]
        rfl
      · refine same.trans (keeps_write found fun before present' => ?_)
        rw [present] at present'
        cases present'
        exact ⟨false, rfl, fun is => by cases is⟩
  · obtain ⟨middle, alloc, rest⟩ := bind_ok.mp done
    obtain ⟨first, space⟩ := Sound.autoallocVmm _ sound alloc
    have same : Keeps r middle := keeps_of_read fun _ => by rw [space]
    split at rest
    · cases rest
      exact ⟨first, same⟩
    · split at rest
      · cases rest
        exact ⟨first, same⟩
      · obtain ⟨⟨p, got⟩, alloc', rest⟩ := bind_ok.mp rest
        cases rest
        have is := (first.sound sound).allocPage alloc'
        exact ⟨first.trans (is.leads (first.sound sound)), same.trans (keeps_of_read fun _ => by rw [is.space])⟩

theorem Sound.mapStackLoop {virt : UInt64} {failed : Option UInt32} (numbers : List UInt32) (sound : r.Sound)
    (done : r.mapStackLoop area noalloc virt numbers = .ok (failed, r')) :
    Leads r r' ∧ Keeps r r' ∧ ∀ i, failed = some i → i ∈ numbers := by
  induction numbers generalizing r with
  | nil =>
    cases done
    exact ⟨sound.leads, keeps_of_read fun _ => rfl, fun _ same => by cases same⟩
  | cons i numbers ih =>
    obtain ⟨⟨mapped, middle⟩, maps, rest⟩ := bind_ok.mp done
    obtain ⟨first, same⟩ := sound.mmProcessMapstack maps
    cases mapped with
    | true =>
      have goesOn : middle.mapStackLoop area noalloc virt numbers = .ok (failed, r') := rest
      obtain ⟨later, same', member⟩ := ih (first.sound sound) goesOn
      exact ⟨first.trans later, same.trans same', fun j is => mem_cons_of_mem i (member j is)⟩
    | false =>
      cases rest
      refine ⟨first, same, fun j is => ?_⟩
      cases is
      exact mem_cons_self

theorem Sound.unmapStackPage (sound : r.Sound) (page : Nat) : Clears r (r.unmapStackPage page) := by
  rw [Running.unmapStackPage]
  split
  · exact sound.clears
  · rename_i pte present
    obtain ⟨table, found⟩ := ProcessSpace.table_of_read present
    split
    · exact sound.clears
    · refine sound.write found ?_
      rw [ProcessSpace.owner, present]
      rfl

theorem Sound.unmapStackPages (sound : r.Sound) (pages : List Nat) :
    Clears r (pages.foldl Running.unmapStackPage r) := by
  induction pages generalizing r with
  | nil => exact sound.clears
  | cons page pages ih =>
    have first := sound.unmapStackPage page
    exact first.trans (ih (first.sound sound))

theorem Sound.mmProcessUnmapStack (sound : r.Sound) (done : r.mmProcessUnmapStack virt len = some r') :
    Clears r r' := by
  rw [Running.mmProcessUnmapStack] at done
  split at done
  · cases done
  · split at done
    · cases done
    · cases done
      exact sound.unmapStackPages _

theorem read_unmapStackPages (pages : List Nat) (r : Running) {other : Nat} {pte : Pte}
    (present : r.space.read other = some pte) :
    ∃ mark, (pages.foldl Running.unmapStackPage r).space.read other = some { pte with available1 := mark } ∧
      (other ∉ pages → mark = pte.available1) := by
  induction pages generalizing r pte with
  | nil => exact ⟨pte.available1, present, fun _ => rfl⟩
  | cons page pages ih =>
    have turn : ∃ mark, (r.unmapStackPage page).space.read other = some { pte with available1 := mark } ∧
        (other ≠ page → mark = pte.available1) := by
      rw [Running.unmapStackPage]
      split
      · exact ⟨pte.available1, present, fun _ => rfl⟩
      · rename_i found at'
        split
        · exact ⟨pte.available1, present, fun _ => rfl⟩
        · by_cases same : other = page
          · subst same
            obtain ⟨table, hasTable⟩ := ProcessSpace.table_of_read present
            rw [present] at at'
            cases at'
            exact ⟨true, ProcessSpace.read_write hasTable, fun differs => absurd rfl differs⟩
          · exact ⟨pte.available1, (ProcessSpace.read_write_ne same).trans present, fun _ => rfl⟩
    obtain ⟨mark, now, kept⟩ := turn
    obtain ⟨mark', last, kept'⟩ := ih (r.unmapStackPage page) now
    refine ⟨mark', last, fun outside => ?_⟩
    rw [mem_cons, not_or] at outside
    rw [kept' outside.2]
    exact kept outside.1

open Process in
theorem pagesOf_stack {npages i : UInt32} {virt : UInt64} (few : npages.toNat ≤ 2 ^ 20)
    (member : i ∈ StackPages.pageNumbers npages) (aligned : virt.toNat % 4096 = 0)
    (inside : (virt + 4096).toNat < 0x40000000) (long : (i * 4096).toNat ≤ (virt + 4096).toNat)
    (stack : page ∈ pagesOf ((virt + 4096).toNat - (i * 4096).toNat) (i * 4096).toNat) :
    ∃ k ∈ StackPages.pageNumbers npages, (virt - (k * 4096).toUInt64).toNat = page * 4096 ∧
      page * 4096 < 0x40000000 := by
  obtain ⟨n, below, rfl⟩ := mem_map.mp member
  rw [mem_range] at below
  have number : ∀ m < npages.toNat, (UInt32.ofNat m * 4096).toNat = m * 4096 := by
    intro m less
    rw [UInt32.toNat_mul, UInt32.toNat_ofNat']
    simp only [UInt32.reduceToNat]
    omega
  rw [number n below] at long stack
  have top := virt.toNat_lt
  rw [mem_pagesOf] at stack
  rw [UInt64.toNat_add] at inside long stack
  simp only [UInt64.reduceToNat] at inside long stack
  refine ⟨UInt32.ofNat (virt.toNat / 4096 - page), ?_, ?_, by omega⟩
  · refine mem_map.mpr ⟨virt.toNat / 4096 - page, mem_range.mpr ?_, rfl⟩
    omega
  · rw [UInt64.toNat_sub, UInt32.toNat_toUInt64, number _ (by omega)]
    omega

open Process in
theorem Sound.mmProcessMapStack {fuel : Nat} {len : UInt32} {align : Bool} {top : UInt64} (sound : r.Sound)
    (done : r.mmProcessMapStack area fuel len noalloc align = .ok (top, r')) :
    Leads r r' ∧ Keeps r r' ∧
      (top ≠ 0 → ∀ i ∈ StackPages.pageNumbers ((len + 4095) >>> 12),
        (r.stackPages area).allocStackSub (top - 4096 - (i * 4096).toUInt64) = true) := by
  simp only [Running.mmProcessMapStack] at done
  split at done
  · cases done
  · cases done
    exact ⟨sound.leads, keeps_of_read fun _ => rfl, fun differs => absurd rfl differs⟩
  · rename_i virt nonzero found
    obtain ⟨⟨failed, middle⟩, maps, rest⟩ := bind_ok.mp done
    obtain ⟨leads, same, member⟩ := Sound.mapStackLoop _ sound maps
    have usable := StackPages.check_fits_all ((StackPages.search_fits found).resolve_left nonzero)
    cases failed with
    | none =>
      obtain ⟨is, rfl⟩ := Prod.mk.inj (Except.ok.inj rest)
      refine ⟨leads, same, fun _ i inside => ?_⟩
      rw [← is, UInt64.add_sub_cancel]
      exact usable i inside
    | some i =>
      obtain ⟨is, rfl⟩ := Prod.mk.inj (Except.ok.inj rest)
      subst is
      have member' := member i rfl
      refine ⟨?_, ?_, fun differs => absurd rfl differs⟩
      · cases unmaps : middle.mmProcessUnmapStack (virt + 4096).toNat (i * 4096).toNat with
        | none => exact leads
        | some last => exact leads.trans ((leads.sound sound).mmProcessUnmapStack unmaps).leads
      · cases unmaps : middle.mmProcessUnmapStack (virt + 4096).toNat (i * 4096).toNat with
        | none => exact same
        | some last =>
          rw [Running.mmProcessUnmapStack] at unmaps
          split at unmaps
          · cases unmaps
          · rename_i long
            split at unmaps
            · cases unmaps
            · rename_i inside
              cases unmaps
              intro page pte present
              obtain ⟨mark, now, marked⟩ := same page pte present
              obtain ⟨mark', last, kept⟩ := read_unmapStackPages
                (pagesOf ((virt + 4096).toNat - (i * 4096).toNat) (i * 4096).toNat) middle now
              refine ⟨mark', last, fun is => ?_⟩
              by_cases stack : page ∈ pagesOf ((virt + 4096).toNat - (i * 4096).toNat) (i * 4096).toNat
              · have few : ((len + 4095) >>> 12).toNat ≤ 2 ^ 20 := by
                  have small := (len + 4095).toNat_lt
                  rw [UInt32.toNat_shiftRight]
                  simp only [UInt32.reduceToNat, Nat.shiftRight_eq_div_pow, Nat.reduceMod, Nat.reducePow]
                  omega
                have some' : (len + 4095) >>> 12 ≠ 0 := by
                  intro zero
                  rw [zero] at member'
                  cases member'
                have aligned := (StackPages.search_aligned some' found).resolve_left nonzero
                obtain ⟨k, numbered, address, low⟩ := pagesOf_stack few member' aligned (by omega) (by omega) stack
                have free := usable k numbered
                have below : virt - (k * 4096).toUInt64 < 0x40000000 := by
                  rw [UInt64.lt_iff_toNat_lt, address]
                  exact low
                have at' : page * 4096 / 4096 = page := Nat.mul_div_cancel page (by omega)
                simp only [StackPages.allocStackSub, stackPages, if_pos below, address, at', present] at free
                simpa using free
              · exact marked ((kept stack).symm.trans is)

theorem Sound.freeTable (sound : r.Sound) (i : Nat) (clear : ∀ page, r.space.read page = none) :
    Clears r (r.freeTable i) ∧ (∀ page, (r.freeTable i).space.read page = none) ∧
      (r.freeTable i).space.table = Function.update r.space.table i none := by
  rw [Running.freeTable]
  split
  · rename_i absent
    exact ⟨sound.clears, clear, (Function.update_eq_self_iff.mpr absent.symm).symm⟩
  · rename_i table found
    have owner : r.space.owner (.table i) = some table.phys := by
      rw [ProcessSpace.owner, found]
      rfl
    have empty : ∀ t : PageTable, none = some t → ∀ k, t.entry k = none := fun _ same => by cases same
    obtain ⟨tidy, used⟩ := sound.freePagePhys owner
    refine ⟨⟨tidy, fun j t still => ?_, ?_⟩, fun page => ?_, rfl⟩
    · by_cases same : j = i
      · exact same ▸ sound.tables i table found
      · rw [ProcessSpace.table_setTable, Function.update_of_ne same] at still
        exact sound.tables j t still
    · have gives : Running.ledger { r.freePagePhys table.phys with space := r.space.setTable i none } =
          r.ledger.give (.table i) table.phys := by
        rw [ledger, ProcessSpace.owner_setTable empty fun page _ => clear page]
        exact congrArg (fun used => Ledger.mk _ used _) used
      rw [gives]
      exact Ledger.Gives.give owner
    · by_cases same : page / 512 = i
      · exact ProcessSpace.read_setTable empty same
      · exact (ProcessSpace.read_setTable_ne same).trans (clear page)

theorem Sound.freeTables (sound : r.Sound) (clear : ∀ page, r.space.read page = none) (tables : List Nat) :
    Clears r (tables.foldl Running.freeTable r) ∧
      ∀ i, (tables.foldl Running.freeTable r).space.table i = if i ∈ tables then none else r.space.table i := by
  induction tables generalizing r with
  | nil => exact ⟨sound.clears, fun i => by simp⟩
  | cons i tables ih =>
    obtain ⟨first, clear', gone⟩ := sound.freeTable i clear
    obtain ⟨later, read⟩ := ih (first.sound sound) clear'
    refine ⟨first.trans later, fun j => ?_⟩
    rw [foldl_cons, read, gone]
    by_cases inTables : j ∈ tables
    · simp [inTables]
    · by_cases same : j = i
      · simp [same]
      · simp [inTables, same]

theorem Sound.mmProcessUnmapall (sound : r.Sound) :
    ∃ r', r.mmProcessUnmapall = .ok r' ∧ Clears r r' ∧ ∀ slot p, r'.space.owner slot = some p → slot = .root := by
  have accepted : ¬(0 + (0x40000000 - 1) ≥ 0x40000000) := by omega
  have cleared := sound.unmapPages (pagesOf 0 (0x40000000 - 1))
  have clear : ∀ page, ((pagesOf 0 (0x40000000 - 1)).foldl Running.unmapPage r).space.read page = none := by
    intro page
    rw [read_unmapPages]
    split
    · rfl
    · rename_i outside
      rw [mem_pagesOf] at outside
      cases found : r.space.table (page / 512) with
      | none => exact ProcessSpace.read_none found
      | some table =>
        have low := sound.tables _ table found
        omega
  obtain ⟨freed, tables⟩ := (cleared.sound sound).freeTables clear (List.range 512)
  refine ⟨_, by rw [Running.mmProcessUnmapall, Running.mmProcessUnmap, if_neg accepted],
    cleared.trans freed, fun slot p own => ?_⟩
  have gone : ∀ i, ((List.range 512).foldl Running.freeTable
      ((pagesOf 0 (0x40000000 - 1)).foldl Running.unmapPage r)).space.table i = none := by
    intro i
    cases found : ((List.range 512).foldl Running.freeTable
        ((pagesOf 0 (0x40000000 - 1)).foldl Running.unmapPage r)).space.table i with
    | none => rfl
    | some table =>
      have low := freed.tables i table found
      rw [tables, if_pos (mem_range.mpr low)] at found
      cases found
  cases slot with
  | root => rfl
  | table i =>
    rw [ProcessSpace.owner, gone] at own
    cases own
  | entry page =>
    rw [ProcessSpace.owner, ProcessSpace.read_none (gone _)] at own
    cases own

end Running

end DisasVisor.Mm
