import DisasVisor.Usb.UhciRuns

/-!
When every descriptor of the shadow points into the duplicate of its own block: no earlier block may have
its address, since `uhci_shadow_buffer` takes the first block that does.
-/

namespace DisasVisor.Usb.Uhci

/-- The descriptor points into the host's block, the whole transfer is inside, and it starts at the offset
that the guest's descriptor has in the guest's block. -/
def Placed (gub : UsbBuffer) (hostPadr : ℕ) (before after : Td) : Prop :=
  hostPadr ≤ after.buffer.toNat ∧ after.buffer.toNat < hostPadr + gub.len ∧
    after.buffer.toNat + uhciTdMaxlen before ≤ hostPadr + gub.len ∧
    after.buffer.toNat + gub.padr = before.buffer.toNat + hostPadr

/-- No `ASSERT` fails, and each descriptor with a buffer is placed in the block of its run. -/
def Contained (tds : List Td) (host : HostBuffers (makeBufferList tds)) : Prop :=
  (uhciShadowBuffer (makeBufferList tds) host.padr tds).isSome ∧
    ∀ (k : ℕ) run, (runs tds)[k]? = some run → ∀ td ∈ run, usesBuffer td = true →
      ∃ gub after, (makeBufferList tds)[k]? = some gub ∧
        fitTd ((makeBufferList tds).zip (duplicateBuffers host.padr (makeBufferList tds))) td = some after ∧
        Placed gub (host.padr k) td after

/-- In terms of the guest's descriptors: the list goes on up to each descriptor with a buffer, no descriptor of
an earlier run covers its address, a descriptor of its own run does, and each run starts below its duplicate. -/
structure Separate (tds : List Td) (padr : ℕ → ℕ) : Prop where
  goesOn : ∀ (k : ℕ) run, (runs tds)[k]? = some run → ∀ td ∈ run, usesBuffer td = true →
    ∀ j ≤ k, ∀ earlier, (runs tds)[j]? = some earlier → begins earlier = true
  apart : ∀ (k : ℕ) run, (runs tds)[k]? = some run → ∀ td ∈ run, usesBuffer td = true →
    ∀ j < k, ∀ earlier, (runs tds)[j]? = some earlier → ∀ t ∈ earlier, ¬ covers t td.buffer.toNat
  covered : ∀ (k : ℕ) run, (runs tds)[k]? = some run → ∀ td ∈ run, usesBuffer td = true →
    ∃ t ∈ run, covers t td.buffer.toNat
  above : ∀ (k : ℕ) run, (runs tds)[k]? = some run → ∀ td ∈ run.head?, usesBuffer td = true → td.buffer.toNat ≤ padr k

section Fitting

variable {buffers : List (UsbBuffer × UsbBuffer)} {buffer after : UInt32}

theorem fitBuffer_first (buffers : List (UsbBuffer × UsbBuffer)) : ∀ (k : ℕ) (gub hub : UsbBuffer),
    buffers[k]? = some (gub, hub) →
    (∀ j ≤ k, ∀ pair, buffers[j]? = some pair → pair.1.padr ≤ pair.2.padr) →
    (∀ j < k, ∀ pair, buffers[j]? = some pair → inBuffer pair.1 buffer = false) → inBuffer gub buffer = true →
      fitBuffer buffers buffer = some (buffer + UInt32.ofNat (hub.padr - gub.padr)) := by
  induction buffers with
  | nil => simp
  | cons first buffers ih =>
    intro k gub hub place above missed hit
    have fine := above 0 (Nat.zero_le k) first rfl
    rw [fitBuffer, if_neg (Nat.not_lt.mpr fine)]
    cases k with
    | zero =>
      cases place
      rw [if_pos hit]
    | succ k =>
      rw [missed 0 (by omega) first rfl, if_neg Bool.false_ne_true]
      exact ih k gub hub place (fun j bound => above (j + 1) (by omega))
        (fun j bound => missed (j + 1) (by omega)) hit

theorem fitBuffer_some (buffers : List (UsbBuffer × UsbBuffer)) :
    fitBuffer buffers buffer = some after →
      (∃ (k : ℕ) (gub hub : UsbBuffer), buffers[k]? = some (gub, hub) ∧ inBuffer gub buffer = true ∧
        (∀ j ≤ k, ∀ pair, buffers[j]? = some pair → pair.1.padr ≤ pair.2.padr) ∧
        (∀ j < k, ∀ pair, buffers[j]? = some pair → inBuffer pair.1 buffer = false) ∧
        after = buffer + UInt32.ofNat (hub.padr - gub.padr)) ∨
      (∀ pair ∈ buffers, inBuffer pair.1 buffer = false) ∧ after = buffer := by
  induction buffers with
  | nil =>
    intro found
    cases found
    exact .inr ⟨by simp, rfl⟩
  | cons first buffers ih =>
    intro found
    rw [fitBuffer] at found
    obtain ⟨fine, found⟩ := Option.ite_none_left_eq_some.mp found
    have firstAbove := Nat.not_lt.mp fine
    cases hit : inBuffer first.1 buffer with
    | true =>
      rw [hit, if_pos rfl] at found
      cases found
      refine .inl ⟨0, first.1, first.2, rfl, hit, fun j bound pair place => ?_, by simp, rfl⟩
      cases Nat.le_zero.mp bound
      cases place
      exact firstAbove
    | false =>
      rw [hit, if_neg Bool.false_ne_true] at found
      rcases ih found with ⟨k, gub, hub, place, hits, above, missed, same⟩ | ⟨none, same⟩
      · refine .inl ⟨k + 1, gub, hub, place, hits, fun j bound pair place => ?_, fun j bound pair place => ?_,
          same⟩
        · cases j with
          | zero => cases place; exact firstAbove
          | succ j => exact above j (by omega) pair place
        · cases j with
          | zero => cases place; exact hit
          | succ j => exact missed j (by omega) pair place
      · exact .inr ⟨List.forall_mem_cons.mpr ⟨hit, none⟩, same⟩

end Fitting

section Blocks

variable {tds : List Td} {host : HostBuffers (makeBufferList tds)}

theorem zip_duplicateBuffers (gubs : List UsbBuffer) (padr : ℕ → ℕ) (k : ℕ) (pair : UsbBuffer × UsbBuffer) :
    (gubs.zip (duplicateBuffers padr gubs))[k]? = some pair ↔
      ∃ gub, gubs[k]? = some gub ∧ pair = (gub, { gub with padr := padr k }) := by
  rw [List.getElem?_zip_eq_some, duplicateBuffers, List.getElem?_mapIdx, Option.map_eq_some_iff]
  constructor
  · rintro ⟨left, gub, place, right⟩
    cases left.symm.trans place
    exact ⟨pair.1, left, by rw [right]⟩
  · rintro ⟨gub, place, rfl⟩
    exact ⟨place, gub, place, rfl⟩

variable {k : ℕ} {gub : UsbBuffer} {run : List Td} {td : Td}

theorem block_run (place : (makeBufferList tds)[k]? = some gub) :
    ∃ first run, (runs tds)[k]? = some (first :: run) ∧ usesBuffer first = true ∧
      gub.padr = first.buffer.toNat ∧ gub.len = total (first :: run) ∧
      ∀ j ≤ k, ∀ earlier, (runs tds)[j]? = some earlier → begins earlier = true := by
  obtain ⟨run, among, extents, all⟩ := makeBufferList_get tds k gub place
  have starts := all k le_rfl run among
  cases run with
  | nil => simp [begins] at starts
  | cons first run =>
    rw [extent, Prod.mk.injEq] at extents
    exact ⟨first, run, among, by simpa [begins] using starts, extents.1, extents.2, all⟩

theorem run_chain (place : (runs tds)[k]? = some run) : run.IsChain (fun last td => continues last td = true) :=
  List.isChain_of_mem_splitBy (List.mem_of_getElem? place)

section

variable (place : (makeBufferList tds)[k]? = some gub)
include place

theorem inBuffer_covers (among : (runs tds)[k]? = some run) (above : gub.padr ≤ host.padr k) (buffer : UInt32) :
    inBuffer gub buffer = true ↔ ∃ t ∈ run, covers t buffer.toNat := by
  obtain ⟨first, rest, among', -, start, length, -⟩ := block_run place
  cases among.symm.trans among'
  have below := host.below k gub place
  rw [covers_run rest first (run_chain among) (by omega), ← start, ← length, inBuffer]
  simp

theorem block_inside (among : (runs tds)[k]? = some run)
    (above : gub.padr ≤ host.padr k) (member : td ∈ run) (uses : usesBuffer td = true) :
    td.buffer.toNat + uhciTdMaxlen td ≤ gub.padr + gub.len := by
  obtain ⟨first, rest, among', -, start, length, -⟩ := block_run place
  cases among.symm.trans among'
  have below := host.below k gub place
  have nonzero : td.buffer ≠ 0 := by
    simp only [usesBuffer, Bool.and_eq_true, decide_eq_true_eq] at uses
    exact uses.2
  rw [start, length]
  exact (inside_run rest first (run_chain among) (by omega) td member nonzero).2

theorem moved_toNat (above : gub.padr ≤ host.padr k) {buffer : UInt32} (hit : inBuffer gub buffer = true) :
    (buffer + UInt32.ofNat (host.padr k - gub.padr)).toNat + gub.padr = buffer.toNat + host.padr k := by
  have below := host.below k gub place
  simp only [inBuffer, Bool.and_eq_true, decide_eq_true_eq] at hit
  rw [UInt32.toNat_add, UInt32.toNat_ofNat', Nat.mod_eq_of_lt (a := host.padr k - gub.padr) (by omega),
    Nat.mod_eq_of_lt (by omega)]
  omega

end

theorem Separate.fits (separate : Separate tds host.padr) (among : (runs tds)[k]? = some run) (member : td ∈ run)
    (uses : usesBuffer td = true) :
    ∃ gub after, (makeBufferList tds)[k]? = some gub ∧
      fitTd ((makeBufferList tds).zip (duplicateBuffers host.padr (makeBufferList tds))) td = some after ∧
      Placed gub (host.padr k) td after := by
  have all := separate.goesOn k run among td member uses
  obtain ⟨gub, place, -⟩ := exists_block tds k run among all
  have above : ∀ j ≤ k, ∀ block, (makeBufferList tds)[j]? = some block → block.padr ≤ host.padr j := by
    intro j bound block there
    obtain ⟨first, rest, among', starts, start, -, -⟩ := block_run there
    rw [start]
    exact separate.above j _ among' first rfl starts
  have hit : inBuffer gub td.buffer = true :=
    (inBuffer_covers place among (above k le_rfl gub place) td.buffer).mpr (separate.covered k run among td member uses)
  have fitted : fitBuffer _ td.buffer = some _ := fitBuffer_first _ k gub { gub with padr := host.padr k }
    ((zip_duplicateBuffers _ host.padr k _).mpr ⟨gub, place, rfl⟩)
    (by
      intro j bound pair there
      obtain ⟨block, listed, rfl⟩ := (zip_duplicateBuffers _ host.padr j pair).mp there
      exact above j bound block listed)
    (by
      intro j bound pair there
      obtain ⟨block, listed, rfl⟩ := (zip_duplicateBuffers _ host.padr j pair).mp there
      obtain ⟨first, rest, among', -⟩ := block_run listed
      have missed := separate.apart k run among td member uses j bound _ among'
      apply Bool.eq_false_iff.mpr
      intro found
      obtain ⟨t, within, covering⟩ := (inBuffer_covers listed among' (above j bound.le block listed) td.buffer).mp found
      exact missed t within covering) hit
  have moved := moved_toNat place (above k le_rfl gub place) hit
  have ends := block_inside place among (above k le_rfl gub place) member uses
  refine ⟨gub, { td with buffer := td.buffer + UInt32.ofNat (host.padr k - gub.padr) }, place,
    by rw [fitTd, if_pos uses, fitted]; rfl, ?_⟩
  simp only [inBuffer, Bool.and_eq_true, decide_eq_true_eq] at hit
  unfold Placed
  dsimp only
  omega

/-- Of a placed descriptor the search has come to its own block, and no `ASSERT` failed on the way: the duplicates
are apart, and so are the places of an address that is in two blocks. -/
theorem placed_own (place : (makeBufferList tds)[k]? = some gub) {after : Td} (uses : usesBuffer td = true)
    (fitted : fitTd ((makeBufferList tds).zip (duplicateBuffers host.padr (makeBufferList tds))) td = some after)
    (placed : Placed gub (host.padr k) td after) :
    inBuffer gub td.buffer = true ∧
      (∀ j ≤ k, ∀ block, (makeBufferList tds)[j]? = some block → block.padr ≤ host.padr j) ∧
      ∀ j < k, ∀ block, (makeBufferList tds)[j]? = some block → inBuffer block td.buffer = false := by
  rw [fitTd, if_pos uses] at fitted
  obtain ⟨buffer, found, rfl⟩ := Option.map_eq_some_iff.mp fitted
  obtain ⟨lower, upper, -, offset⟩ := placed
  have inside : inBuffer gub td.buffer = true := by
    simp only [inBuffer, Bool.and_eq_true, decide_eq_true_eq]
    dsimp only at lower upper offset
    omega
  rcases fitBuffer_some _ found with ⟨m, first, hub, there, hit, above, missed, same⟩ | ⟨none, -⟩
  · obtain ⟨block, listed, pair⟩ := (zip_duplicateBuffers _ host.padr m _).mp there
    cases pair
    have aboveAll : ∀ j ≤ m, ∀ block, (makeBufferList tds)[j]? = some block → block.padr ≤ host.padr j :=
      fun j bound block entry => above j bound _ ((zip_duplicateBuffers _ host.padr j _).mpr ⟨block, entry, rfl⟩)
    have own : m = k := by
      by_contra different
      have moved := moved_toNat listed (aboveAll m le_rfl _ listed) hit
      have separate := host.apart m k _ _ listed place different
      dsimp only at same lower upper
      rw [← same] at moved
      simp only [inBuffer, Bool.and_eq_true, decide_eq_true_eq] at hit
      omega
    subst own
    exact ⟨inside, aboveAll,
      fun j bound block entry => missed j bound _ ((zip_duplicateBuffers _ host.padr j _).mpr ⟨block, entry, rfl⟩)⟩
  · have missed := none _ (List.mem_of_getElem? ((zip_duplicateBuffers _ host.padr k _).mpr ⟨gub, place, rfl⟩))
    rw [inside] at missed
    cases missed

theorem Contained.separate (contained : Contained tds host) : Separate tds host.padr := by
  have own : ∀ (k : ℕ) run, (runs tds)[k]? = some run → ∀ td ∈ run, usesBuffer td = true →
      ∃ gub, (makeBufferList tds)[k]? = some gub ∧ inBuffer gub td.buffer = true ∧
        (∀ j ≤ k, ∀ block, (makeBufferList tds)[j]? = some block → block.padr ≤ host.padr j) ∧
        ∀ j < k, ∀ block, (makeBufferList tds)[j]? = some block → inBuffer block td.buffer = false := by
    intro k run among td member uses
    obtain ⟨gub, after, place, fitted, placed⟩ := contained.2 k run among td member uses
    exact ⟨gub, place, placed_own place uses fitted placed⟩
  constructor
  · intro k run among td member uses
    obtain ⟨gub, place, -⟩ := own k run among td member uses
    obtain ⟨-, -, -, -, -, -, all⟩ := block_run place
    exact all
  · intro k run among td member uses j before earlier amongEarlier t within covering
    obtain ⟨gub, place, -, above, missed⟩ := own k run among td member uses
    obtain ⟨-, -, -, -, -, -, all⟩ := block_run place
    obtain ⟨block, listed, -⟩ := exists_block tds j earlier amongEarlier fun i bound => all i (by omega)
    have hit := (inBuffer_covers listed amongEarlier (above j before.le block listed) td.buffer).mpr
      ⟨t, within, covering⟩
    rw [missed j before block listed] at hit
    cases hit
  · intro k run among td member uses
    obtain ⟨gub, place, hit, above, -⟩ := own k run among td member uses
    exact (inBuffer_covers place among (above k le_rfl gub place) td.buffer).mp hit
  · intro k run among td first uses
    obtain ⟨gub, place, -, above, -⟩ := own k run among td (List.mem_of_mem_head? first) uses
    obtain ⟨head, rest, among', -, start, -, -⟩ := block_run place
    cases among.symm.trans among'
    cases first
    rw [← start]
    exact above k le_rfl gub place

theorem isSome_mapM {α β : Type} {f : α → Option β} (list : List α) (all : ∀ x ∈ list, (f x).isSome) :
    (list.mapM f).isSome := by
  induction list with
  | nil => rfl
  | cons x list ih =>
    rw [List.forall_mem_cons] at all
    obtain ⟨y, first⟩ := Option.isSome_iff_exists.mp all.1
    obtain ⟨ys, rest⟩ := Option.isSome_iff_exists.mp (ih all.2)
    simp [List.mapM_cons, first, rest]

theorem Separate.contained (separate : Separate tds host.padr) : Contained tds host := by
  refine ⟨?_, fun k run among td member uses => separate.fits among member uses⟩
  rw [uhciShadowBuffer]
  split
  · rfl
  · refine isSome_mapM tds fun td listed => ?_
    cases uses : usesBuffer td with
    | false => simp [fitTd, uses]
    | true =>
      obtain ⟨k, run, among, member⟩ := Segments.exists_segment (r := continues) listed
      obtain ⟨gub, after, -, fitted, -⟩ := separate.fits among member uses
      rw [fitted]
      rfl

end Blocks

/-- For every list of descriptors and wherever the duplicates of the buffers lie: all transfers are inside the
duplicates of their own blocks exactly if no earlier block has the address of a descriptor, and the list and
the addresses allow the search to come that far. -/
theorem contained_iff (tds : List Td) (host : HostBuffers (makeBufferList tds)) :
    Contained tds host ↔ Separate tds host.padr :=
  ⟨Contained.separate, Separate.contained⟩

def shortTd : Td where
  link := 0x20
  status := 0x00800000
  token := 0x07E00069
  buffer := 0x1000

def longTd : Td where
  link := 1
  status := 0x00800000
  token := 0x1FE00069
  buffer := 0x1020

def overlapping : HostBuffers (makeBufferList [shortTd, longTd]) where
  padr := fun k => 0x100000 * (k + 1)
  below := by
    intro k gub place
    match k with
    | 0 | 1 => cases place; decide
    | k + 2 => cases place
  apart := by
    intro j k left right first second different
    match j, k with
    | 0, 1 | 1, 0 => cases first; cases second; decide
    | 0, 0 | 1, 1 => exact absurd rfl different
    | j + 2, _ => cases first
    | _, k + 2 => cases second

theorem overlapping_not_contained : ¬ ∀ (uhciGettdbypaddr : UInt32 → Td) (fuel : ℕ) (element : UInt32) (tds : List Td)
    (host : HostBuffers (makeBufferList tds)), duplicateQcontext uhciGettdbypaddr fuel element = some tds →
      Contained tds host := by
  intro all
  have accepted : duplicateQcontext (fun padr => if padr = 0x10 then shortTd else longTd) 3 0x10 =
      some [shortTd, longTd] := by decide
  have contained := all _ _ _ _ overlapping accepted
  have missed := contained.separate.apart 1 [longTd] (by decide) longTd (by simp) (by decide) 0 (by decide)
    [shortTd] (by decide) shortTd (by simp)
  exact missed ⟨by decide, by decide⟩

end DisasVisor.Usb.Uhci
