import DisasVisor.Lib.Ledgers
import DisasVisor.Lib.Loops
import DisasVisor.Mm.BuddyInvariant
import DisasVisor.Mm.ProcessSpace

/-!
What a process owns: its page directory, its page tables and the pages of its entries without the
shared mark. Each operation moves pages between these places and the allocator.
-/

namespace DisasVisor.Mm

open Function Ledgers

namespace Buddy

variable {s t : Buddy} {n p : Nat}

def inUse (s : Buddy) : Set Nat := {p | p < numOfPages ∧ s.Held p}

theorem inUse_given (given : Given s n p t) : t.inUse = insert p s.inUse := by
  ext f
  by_cases same : f = p
  · rw [same]
    exact ⟨fun _ => Set.mem_insert p _, fun _ => ⟨given.page, .inl given.type⟩⟩
  · simp [inUse, same, given.keeps.held same]

theorem inUse_freed (freed : Freed s p t) : t.inUse = s.inUse \ {p} := by
  ext f
  by_cases same : f = p
  · rw [same]
    exact ⟨fun still => absurd still.2 freed.gone, fun still => absurd rfl still.2⟩
  · simp [inUse, same, freed.keeps.held same]

end Buddy

def Pte.own (pte : Pte) : Option Nat := if pte.available2 then none else some pte.phys

inductive Slot
  | root
  | table (i : Nat)
  | entry (page : Nat)
  deriving DecidableEq

namespace ProcessSpace

def owner (s : ProcessSpace) : Slot → Option Nat
  | .root => some s.root
  | .table i => (s.table i).map (·.phys)
  | .entry page => (s.read page).bind Pte.own

variable {s : ProcessSpace} {page other i : Nat} {pte : Option Pte} {table : PageTable}

theorem table_write (s : ProcessSpace) (page : Nat) (pte : Option Pte) :
    (s.write page pte).table = update s.table (page / 512)
      ((s.table (page / 512)).map fun table =>
        { table with entry := update table.entry (page % 512) pte }) := rfl

theorem table_setTable (s : ProcessSpace) (i : Nat) (table : Option PageTable) :
    (s.setTable i table).table = update s.table i table := rfl

theorem read_none (absent : s.table (page / 512) = none) : s.read page = none := by
  rw [read, absent]
  rfl

theorem table_of_read {pte : Pte} (present : s.read page = some pte) : ∃ table, s.table (page / 512) = some table := by
  cases found : s.table (page / 512) with
  | none =>
    rw [read_none found] at present
    cases present
  | some table => exact ⟨table, rfl⟩

theorem read_write (found : s.table (page / 512) = some table) : (s.write page pte).read page = pte := by
  simp [read, write, found]

theorem read_write_ne (differs : other ≠ page) : (s.write page pte).read other = s.read other := by
  by_cases same : other / 512 = page / 512
  · have inside : other % 512 ≠ page % 512 := by omega
    cases found : s.table (page / 512) with
    | none => simp [read, write, same, found]
    | some table => simp [read, write, same, found, update_of_ne inside]
  · simp [read, write, update_of_ne same]

theorem phys_write (s : ProcessSpace) (page i : Nat) (pte : Option Pte) :
    ((s.write page pte).table i).map (·.phys) = (s.table i).map (·.phys) := by
  by_cases same : i = page / 512
  · rw [table_write, same, update_self, Option.map_map]
    rfl
  · rw [table_write, update_of_ne same]

theorem owner_write (found : s.table (page / 512) = some table) :
    (s.write page pte).owner = update s.owner (.entry page) (pte.bind Pte.own) := by
  funext slot
  cases slot with
  | root => rfl
  | table i => exact phys_write s page i pte
  | entry other =>
    by_cases same : other = page
    · rw [same, update_self, owner, read_write found]
    · have differs : Slot.entry other ≠ .entry page := fun eq => same (Slot.entry.inj eq)
      rw [update_of_ne differs, owner, owner, read_write_ne same]

theorem read_setTable_ne {table : Option PageTable} (differs : page / 512 ≠ i) :
    (s.setTable i table).read page = s.read page := by
  rw [read, table_setTable, update_of_ne differs, read]

theorem read_setTable {table : Option PageTable} (empty : ∀ t, table = some t → ∀ k, t.entry k = none)
    (same : page / 512 = i) : (s.setTable i table).read page = none := by
  rw [read, table_setTable, same, update_self]
  cases found : table with
  | none => rfl
  | some t => exact empty t found (page % 512)

theorem owner_setTable {table : Option PageTable} (empty : ∀ t, table = some t → ∀ k, t.entry k = none)
    (clear : ∀ page, page / 512 = i → s.read page = none) :
    (s.setTable i table).owner = update s.owner (.table i) (table.map (·.phys)) := by
  funext slot
  cases slot with
  | root => rfl
  | table j =>
    by_cases same : j = i
    · rw [same, update_self, owner, table_setTable, update_self]
    · have differs : Slot.table j ≠ .table i := fun eq => same (Slot.table.inj eq)
      rw [update_of_ne differs, owner, owner, table_setTable, update_of_ne same]
  | entry page =>
    have kept : update s.owner (.table i) (table.map (·.phys)) (.entry page) =
        s.owner (.entry page) := update_of_ne (by simp) _ _
    rw [kept, owner, owner]
    by_cases same : page / 512 = i
    · rw [read_setTable empty same, clear page same]
    · rw [read_setTable_ne same]

end ProcessSpace

namespace Running

variable {r r' r'' : Running} {p page virt len : Nat}

def ledger (r : Running) : Ledger Slot Nat where
  owner := r.space.owner
  used := r.buddy.inUse
  returned := r.returned

structure Sound (r : Running) : Prop where
  tidy : r.buddy.Tidy
  balanced : r.ledger.Balanced
  tables : ∀ i table, r.space.table i = some table → i < 512

structure Leads (r r' : Running) : Prop where
  tidy : r'.buddy.Tidy
  tables : ∀ i table, r'.space.table i = some table → i < 512
  moves : r.ledger.Moves r'.ledger

theorem Leads.sound (leads : Leads r r') (sound : r.Sound) : r'.Sound :=
  ⟨leads.tidy, leads.moves.balanced sound.balanced, leads.tables⟩

theorem Sound.leads (sound : r.Sound) : Leads r r := ⟨sound.tidy, sound.tables, Ledger.Moves.refl _⟩

theorem Leads.trans (first : Leads r r') (next : Leads r' r'') : Leads r r'' :=
  ⟨next.tidy, next.tables, first.moves.trans next.moves⟩

structure Clears (r r' : Running) : Prop where
  tidy : r'.buddy.Tidy
  tables : ∀ i table, r'.space.table i = some table → i < 512
  gives : r.ledger.Gives r'.ledger

theorem Clears.leads (clears : Clears r r') : Leads r r' := ⟨clears.tidy, clears.tables, clears.gives.moves⟩

theorem Clears.sound (clears : Clears r r') (sound : r.Sound) : r'.Sound := clears.leads.sound sound

theorem Sound.clears (sound : r.Sound) : Clears r r := ⟨sound.tidy, sound.tables, Ledger.Gives.refl _⟩

theorem Clears.trans (first : Clears r r') (next : Clears r' r'') : Clears r r'' :=
  ⟨next.tidy, next.tables, first.gives.trans next.gives⟩

structure Got (r : Running) (p : Nat) (r' : Running) : Prop where
  tidy : r'.buddy.Tidy
  space : r'.space = r.space
  unused : p ∉ r.ledger.used
  ledger : r'.ledger = r.ledger.reserve p

theorem Sound.allocPage (sound : r.Sound) (done : r.allocPage = .ok (p, r')) : Got r p r' := by
  rw [Running.allocPage] at done
  split at done
  · cases done
  · rename_i q buddy ran
    cases done
    have given := Buddy.given_mmPageAlloc sound.tidy (Nat.zero_le _) ran
    refine ⟨given.tidy, rfl, fun inUse => given.fresh inUse.2, ?_⟩
    rw [ledger, Buddy.inUse_given given]
    rfl

theorem Sound.freePagePhys (sound : r.Sound) {slot : Slot} (own : r.space.owner slot = some p) :
    (r.freePagePhys p).buddy.Tidy ∧ (r.freePagePhys p).buddy.inUse = r.ledger.used \ {p} := by
  obtain ⟨page, held⟩ := sound.balanced.used own
  have freed := Buddy.freed_mmPageFree sound.tidy page held
  exact ⟨freed.tidy, Buddy.inUse_freed freed⟩

theorem Got.tables (got : Got r p r') (sound : r.Sound) (i : Nat) (table : PageTable)
    (found : r'.space.table i = some table) : i < 512 :=
  sound.tables i table (got.space ▸ found)

theorem Got.leads (got : Got r p r') (sound : r.Sound) : Leads r r' := by
  refine ⟨got.tidy, got.tables sound, ?_⟩
  rw [got.ledger]
  exact Ledger.Moves.reserve got.unused

theorem ledger_write {pte : Option Pte} {table : PageTable} (found : r.space.table (page / 512) = some table)
    (same : pte.bind Pte.own = r.space.owner (.entry page)) : (r.write page pte).ledger = r.ledger := by
  rw [ledger, write, ProcessSpace.owner_write found, same, Function.update_eq_self]
  rfl

theorem tables_write {pte : Option Pte} (tables : ∀ i table, r.space.table i = some table → i < 512) (i : Nat) (table : PageTable)
    (found : (r.write page pte).space.table i = some table) : i < 512 := by
  have phys := ProcessSpace.phys_write r.space page i pte
  cases before : r.space.table i with
  | none =>
    rw [before] at phys
    have absent : (r.space.write page pte).table i = none := by simpa using phys
    rw [write, absent] at found
    cases found
  | some table' => exact tables i table' before

theorem Sound.write {pte : Option Pte} {table : PageTable} (sound : r.Sound)
    (found : r.space.table (page / 512) = some table)
    (same : pte.bind Pte.own = r.space.owner (.entry page)) : Clears r (r.write page pte) := by
  refine ⟨sound.tidy, tables_write sound.tables, ?_⟩
  rw [ledger_write found same]
  exact Ledger.Gives.refl _

theorem Sound.unmapPage (sound : r.Sound) (page : Nat) : Clears r (r.unmapPage page) := by
  rw [Running.unmapPage]
  split
  · exact sound.clears
  · rename_i pte present
    obtain ⟨table, found⟩ := ProcessSpace.table_of_read present
    have owner : r.space.owner (.entry page) = pte.own := by
      rw [ProcessSpace.owner, present]
      rfl
    by_cases shared : pte.available2 = true
    · rw [if_pos shared]
      refine sound.write found ?_
      rw [owner, Pte.own, if_pos shared]
      rfl
    · rw [if_neg shared]
      rw [Pte.own, if_neg shared] at owner
      obtain ⟨tidy, used⟩ := sound.freePagePhys owner
      refine ⟨tidy, tables_write (r := r.freePagePhys pte.phys) sound.tables, ?_⟩
      have gives : ((r.freePagePhys pte.phys).write page none).ledger = r.ledger.give (.entry page) pte.phys := by
        rw [ledger, Running.write, Running.freePagePhys, ProcessSpace.owner_write found]
        exact congrArg (fun used => Ledger.mk _ used _) used
      rw [gives]
      exact Ledger.Gives.give owner

theorem read_unmapPage (r : Running) (page other : Nat) :
    (r.unmapPage page).space.read other = if other = page then none else r.space.read other := by
  rw [Running.unmapPage]
  by_cases same : other = page
  · rw [if_pos same, same]
    split
    · assumption
    · rename_i pte present
      obtain ⟨table, found⟩ := ProcessSpace.table_of_read present
      split
      · exact ProcessSpace.read_write found
      · exact ProcessSpace.read_write (s := (r.freePagePhys pte.phys).space) found
  · rw [if_neg same]
    split
    · rfl
    · split
      · exact ProcessSpace.read_write_ne same
      · exact ProcessSpace.read_write_ne same

theorem Sound.unmapPages (sound : r.Sound) (pages : List Nat) : Clears r (pages.foldl Running.unmapPage r) := by
  induction pages generalizing r with
  | nil => exact sound.clears
  | cons page pages ih =>
    have first := sound.unmapPage page
    exact first.trans (ih (first.sound sound))

theorem read_unmapPages (r : Running) (pages : List Nat) (other : Nat) :
    (pages.foldl Running.unmapPage r).space.read other = if other ∈ pages then none else r.space.read other := by
  induction pages generalizing r with
  | nil => simp
  | cons page pages ih =>
    rw [List.foldl_cons, ih, read_unmapPage]
    by_cases later : other ∈ pages
    · simp [later]
    · by_cases same : other = page
      · simp [same]
      · simp [later, same]

theorem Sound.mmProcessUnmap (sound : r.Sound) (done : r.mmProcessUnmap virt len = some r') : Clears r r' := by
  rw [Running.mmProcessUnmap] at done
  split at done
  · cases done
  · cases done
    exact sound.unmapPages _

theorem read_mmProcessUnmap (done : r.mmProcessUnmap virt len = some r') (other : Nat) :
    r'.space.read other = if other ∈ pagesOf virt len then none else r.space.read other := by
  rw [Running.mmProcessUnmap] at done
  split at done
  · cases done
  · cases done
    exact read_unmapPages r _ other

theorem Sound.unmapped (sound : r.Sound) (virt len : Nat) : Clears r ((r.mmProcessUnmap virt len).getD r) := by
  cases done : r.mmProcessUnmap virt len with
  | none => exact sound.clears
  | some r' => exact sound.mmProcessUnmap done

theorem read_unmapped (r : Running) (virt len : Nat) {other : Nat} (outside : other ∉ pagesOf virt len) :
    ((r.mmProcessUnmap virt len).getD r).space.read other = r.space.read other := by
  cases done : r.mmProcessUnmap virt len with
  | none => rfl
  | some r' => simpa [outside] using read_mmProcessUnmap done other

end Running

open Loops

namespace Running

variable {r r' : Running} {p page virt len : Nat}

structure Ready (r : Running) (page : Nat) (r' : Running) : Prop where
  table : ∃ table, r'.space.table (page / 512) = some table
  read : ∀ other, r'.space.read other = r.space.read other

theorem autoalloc_cases (sound : r.Sound) (done : r.autoalloc page = .ok r') :
    (r' = r ∧ ∃ table, r.space.table (page / 512) = some table) ∨
      ∃ q got, Got r q got ∧ r.space.table (page / 512) = none ∧
        r' = { got with
          space := r.space.setTable (page / 512) (some { phys := q, entry := fun _ => none }) } := by
  rw [autoalloc] at done
  split at done
  · rename_i table found
    cases done
    exact .inl ⟨rfl, table, found⟩
  · rename_i absent
    obtain ⟨⟨q, got⟩, alloc, rest⟩ := bind_ok.mp done
    have is := sound.allocPage alloc
    cases rest
    exact .inr ⟨q, got, is, absent, by rw [is.space]⟩

theorem ready_autoalloc (sound : r.Sound) (done : r.autoalloc page = .ok r') : Ready r page r' := by
  rcases autoalloc_cases sound done with ⟨rfl, table⟩ | ⟨q, got, -, absent, rfl⟩
  · exact ⟨table, fun _ => rfl⟩
  · refine ⟨⟨{ phys := q, entry := fun _ => none }, Function.update_self _ _ _⟩, fun other => ?_⟩
    by_cases same : other / 512 = page / 512
    · have before : r.space.read other = none := ProcessSpace.read_none (same ▸ absent)
      rw [before]
      refine ProcessSpace.read_setTable ?_ same
      intro t is k
      rw [← Option.some.inj is]
    · exact ProcessSpace.read_setTable_ne same

theorem ledger_autoalloc {q : Nat} {got : Running} (is : Got r q got) (absent : r.space.table (page / 512) = none) :
    Running.ledger { got with
        space := r.space.setTable (page / 512) (some { phys := q, entry := fun _ => none }) } =
      r.ledger.take (.table (page / 512)) q := by
  have empty : ∀ t, some (PageTable.mk q fun _ => none) = some t → ∀ k, t.entry k = none := by
    intro t same k
    rw [← Option.some.inj same]
  have clear : ∀ other, other / 512 = page / 512 → r.space.read other = none :=
    fun other same => ProcessSpace.read_none (same ▸ absent)
  have owner := ProcessSpace.owner_setTable empty clear
  have used := congrArg Ledger.used is.ledger
  have returned := congrArg Ledger.returned is.ledger
  simp only [ledger, Ledger.reserve] at used returned
  simp only [ledger, Ledger.take, owner, used, returned, Option.map_some]

theorem tables_autoalloc {table : Option PageTable} (sound : r.Sound) (inside : page < 0x40000) (i : Nat)
    (t : PageTable) (found : (r.space.setTable (page / 512) table).table i = some t) : i < 512 := by
  by_cases same : i = page / 512
  · omega
  · rw [ProcessSpace.table_setTable, Function.update_of_ne same] at found
    exact sound.tables i t found

theorem Sound.autoalloc (sound : r.Sound) (inside : page < 0x40000) (done : r.autoalloc page = .ok r') :
    Leads r r' := by
  rcases autoalloc_cases sound done with ⟨rfl, -⟩ | ⟨q, got, is, absent, rfl⟩
  · exact sound.leads
  · refine ⟨is.tidy, tables_autoalloc sound inside, ?_⟩
    rw [ledger_autoalloc is absent]
    refine Ledger.Moves.take ?_ is.unused
    simp [ledger, ProcessSpace.owner, absent]

theorem Sound.autoallocVmm (missing : Nat) (sound : r.Sound) (done : r.autoallocVmm missing = .ok r') :
    Leads r r' ∧ r'.space = r.space := by
  induction missing generalizing r with
  | zero =>
    cases done
    exact ⟨sound.leads, rfl⟩
  | succ missing ih =>
    obtain ⟨⟨p, got⟩, alloc, rest⟩ := bind_ok.mp done
    have is := sound.allocPage alloc
    have first := is.leads sound
    obtain ⟨later, space⟩ := ih (first.sound sound) rest
    exact ⟨first.trans later, space.trans is.space⟩

theorem mappage_cases {pte : Pte} (done : r.mmProcessMappage virt pte = .ok r') :
    ∃ middle, r.autoalloc (virt / 4096) = .ok middle ∧ middle.space.read (virt / 4096) = none ∧
      r' = middle.write (virt / 4096) (some pte) := by
  obtain ⟨middle, alloc, rest⟩ := bind_ok.mp done
  split at rest
  · cases rest
  · rename_i absent
    cases rest
    exact ⟨middle, alloc, by simpa using absent, rfl⟩

theorem read_mappage {pte : Pte} (sound : r.Sound) (done : r.mmProcessMappage virt pte = .ok r') (other : Nat) :
    r.space.read (virt / 4096) = none ∧
      r'.space.read other = if other = virt / 4096 then some pte else r.space.read other := by
  obtain ⟨middle, alloc, absent, rfl⟩ := mappage_cases done
  obtain ⟨⟨table, found⟩, read⟩ := ready_autoalloc sound alloc
  refine ⟨(read _).symm.trans absent, ?_⟩
  by_cases same : other = virt / 4096
  · rw [if_pos same, same]
    exact ProcessSpace.read_write found
  · rw [if_neg same, ← read other]
    exact ProcessSpace.read_write_ne same

theorem Sound.mapsShared {pte : Pte} (sound : r.Sound) (inside : virt < 0x40000000)
    (shared : pte.available2 = true) (done : r.mmProcessMappage virt pte = .ok r') : Leads r r' := by
  obtain ⟨middle, alloc, absent, rfl⟩ := mappage_cases done
  have first := sound.autoalloc (by omega) alloc
  obtain ⟨⟨table, found⟩, -⟩ := ready_autoalloc sound alloc
  refine first.trans ((first.sound sound).write found ?_).leads
  simp [ProcessSpace.owner, absent, Pte.own, shared]

theorem Sound.mapsOwn {pte : Pte} {got : Running} (sound : r.Sound) (inside : virt < 0x40000000)
    (is : Got r pte.phys got) (own : pte.available2 = false)
    (done : got.mmProcessMappage virt pte = .ok r') : Leads r r' := by
  obtain ⟨middle, alloc, absent, rfl⟩ := mappage_cases done
  have sound' := (is.leads sound).sound sound
  obtain ⟨⟨table, found⟩, read⟩ := ready_autoalloc sound' alloc
  have leads := sound'.autoalloc (by omega) alloc
  have empty : r.space.owner (.entry (virt / 4096)) = none := by
    rw [ProcessSpace.owner, ← is.space, ← read, absent]
    rfl
  have writes : (middle.write (virt / 4096) (some pte)).ledger =
      middle.ledger.assign (.entry (virt / 4096)) pte.phys := by
    rw [ledger, Running.write, ProcessSpace.owner_write found, Option.bind_some, Pte.own, own]
    rfl
  refine ⟨leads.tidy, tables_write leads.tables, ?_⟩
  rw [writes]
  rcases autoalloc_cases sound' alloc with ⟨rfl, -⟩ | ⟨q, got', is', absent', rfl⟩
  · rw [is.ledger, Ledger.assign_reserve]
    exact Ledger.Moves.take empty is.unused
  · rw [ledger_autoalloc is' absent', is.ledger, Ledger.assign_take]
    have unused := is'.unused
    rw [is.ledger] at unused
    have noTable : r.ledger.owner (.table (virt / 4096 / 512)) = none := by
      simp [ledger, ProcessSpace.owner, ← is.space, absent']
    have differs : Slot.entry (virt / 4096) ≠ .table (virt / 4096 / 512) := by simp
    refine (Ledger.Moves.take noTable fun inUse => unused (Set.mem_insert_of_mem _ inUse)).trans ?_
    refine Ledger.Moves.take ((Ledger.owner_take_ne r.ledger q differs).trans empty) ?_
    intro inUse
    rcases Set.mem_insert_iff.mp inUse with same | before
    · exact unused (same ▸ Set.mem_insert _ _)
    · exact is.unused before

theorem mem_pagesOf : page ∈ pagesOf virt len ↔
    virt / 4096 ≤ page ∧ page < virt / 4096 + (len + virt % 4096 + 4095) / 4096 := by
  rw [pagesOf, List.mem_range'_1]

theorem pagesOf_inside (inside : virt + len < 0x40000000) (member : page ∈ pagesOf virt len) : page < 0x40000 := by
  rw [mem_pagesOf] at member
  omega

theorem Sound.mapAllocLoop (pages : List Nat) (inside : ∀ page ∈ pages, page < 0x40000) (sound : r.Sound)
    (done : r.mapAllocLoop pages = .ok r') :
    Leads r r' ∧ ∀ other, other ∉ pages → r'.space.read other = r.space.read other := by
  induction pages generalizing r with
  | nil =>
    cases done
    exact ⟨sound.leads, fun _ _ => rfl⟩
  | cons page pages ih =>
    obtain ⟨⟨p, got⟩, alloc, rest⟩ := bind_ok.mp done
    obtain ⟨mapped, maps, rest⟩ := bind_ok.mp rest
    have is := sound.allocPage alloc
    have low := inside page List.mem_cons_self
    have first : Leads r mapped := sound.mapsOwn (by omega) is rfl maps
    obtain ⟨later, kept⟩ := ih (fun other member => inside other (List.mem_cons_of_mem page member))
      (first.sound sound) rest
    refine ⟨first.trans later, fun other outside => ?_⟩
    rw [List.mem_cons, not_or] at outside
    obtain ⟨-, read⟩ := read_mappage ((is.leads sound).sound sound) maps other
    rw [kept other outside.2, read, Nat.mul_div_cancel page (by omega), if_neg outside.1, is.space]

theorem Sound.mmProcessMapAlloc {mapped : Bool} (sound : r.Sound)
    (done : r.mmProcessMapAlloc virt len = .ok (mapped, r')) :
    Leads r r' ∧ ∀ other, other ∉ pagesOf virt len → r'.space.read other = r.space.read other := by
  rw [Running.mmProcessMapAlloc] at done
  split at done
  · cases done
    exact ⟨sound.leads, fun _ _ => rfl⟩
  · rename_i inside
    obtain ⟨last, maps, rest⟩ := bind_ok.mp done
    cases rest
    have same : pagesOf (virt / 4096 * 4096) (len + virt % 4096) = pagesOf virt len := by
      have whole : virt / 4096 * 4096 / 4096 = virt / 4096 := Nat.mul_div_cancel _ (by omega)
      have rest : virt / 4096 * 4096 % 4096 = 0 := Nat.mul_mod_left _ _
      rw [pagesOf, pagesOf, whole, rest, Nat.add_zero]
    have cleared := sound.unmapped (virt / 4096 * 4096) (len + virt % 4096)
    obtain ⟨leads, kept⟩ := Sound.mapAllocLoop _ (fun page => pagesOf_inside (by omega)) (cleared.sound sound) maps
    refine ⟨cleared.leads.trans leads, fun other outside => ?_⟩
    rw [kept other outside]
    exact read_unmapped r _ _ (same ▸ outside)

theorem Sound.mmProcessMapSharedPhyspage {mapped : Bool} {phys : Nat} {rw' : Bool} (sound : r.Sound)
    (done : r.mmProcessMapSharedPhyspage virt phys rw' = .ok (mapped, r')) :
    Leads r r' ∧ ∀ other, other ≠ virt / 4096 → r'.space.read other = r.space.read other := by
  simp only [Running.mmProcessMapSharedPhyspage] at done
  split at done
  · cases done
    exact ⟨sound.leads, fun _ _ => rfl⟩
  · rename_i inside
    obtain ⟨last, maps, rest⟩ := bind_ok.mp done
    cases rest
    have whole : virt / 4096 * 4096 / 4096 = virt / 4096 := Nat.mul_div_cancel _ (by omega)
    have cleared := sound.unmapped (virt / 4096 * 4096) 4096
    have leads := (cleared.sound sound).mapsShared (by omega) rfl maps
    refine ⟨cleared.leads.trans leads, fun other differs => ?_⟩
    obtain ⟨-, read⟩ := read_mappage (cleared.sound sound) maps other
    rw [read, whole, if_neg differs]
    refine read_unmapped r _ _ ?_
    rw [mem_pagesOf]
    omega

end Running

end DisasVisor.Mm
