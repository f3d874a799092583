import Mathlib.Data.List.TakeWhile
import DisasVisor.Lib.Segments

/-!
How `drivers/usb/uhci_shadow.c` copies the transfer descriptors of a guest and moves their buffers to
memory of the VMM.
-/

namespace DisasVisor.Usb.Uhci

structure Td where
  link : UInt32
  status : UInt32
  token : UInt32
  buffer : UInt32
  deriving DecidableEq

def isTerminate (adr : UInt32) : Bool := adr = 0 || adr &&& 1 ≠ 0

def uhciLink (link : UInt32) : UInt32 := link &&& 0xFFFFFFF0

def isActiveTd (td : Td) : Bool := td.status &&& 0x00800000 ≠ 0

def getPidFromTd (td : Td) : UInt8 := td.token.toUInt8

def pidSetup : UInt8 := 0x2D

def uhciTdMaxlen (td : Td) : ℕ :=
  if td.token >>> 21 = 0x7FF ∨ td.buffer = 0 then 0 else (td.token >>> 21).toNat + 1

def isLinkLoop (link : UInt32) (seen : List UInt32) : Bool := link ≠ 0 && seen.contains link

/-- The loop of `duplicate_qcontext` over the guest's descriptors: `none` where the descriptor's link names a
queue head, or where there is no end within the fuel. -/
def duplicateTds (uhciGettdbypaddr : UInt32 → Td) : ℕ → UInt32 → List UInt32 → Option (List Td)
  | 0, _, _ => none
  | fuel + 1, link, seen =>
    if isTerminate link then some []
    else
      let td := uhciGettdbypaddr (uhciLink link)
      if td.link &&& 2 ≠ 0 then none
      else if isLinkLoop td.link (uhciLink link :: seen) then some [td]
      else if !isActiveTd td then some [td]
      else (duplicateTds uhciGettdbypaddr fuel td.link (uhciLink link :: seen)).map (td :: ·)

def duplicateQcontext (uhciGettdbypaddr : UInt32 → Td) (fuel : ℕ) (element : UInt32) : Option (List Td) :=
  if element &&& 2 ≠ 0 then none else duplicateTds uhciGettdbypaddr fuel element []

structure UsbBuffer where
  pid : UInt8
  padr : ℕ
  offset : ℕ
  len : ℕ
  deriving DecidableEq

def UsbBuffer.nextOffset (ub : UsbBuffer) : ℕ := if ub.pid ≠ pidSetup then ub.offset + ub.len else 0

def newBuffer (td : Td) (offset : ℕ) : UsbBuffer where
  pid := getPidFromTd td
  padr := td.buffer.toNat
  offset := offset
  len := uhciTdMaxlen td

def UsbBuffer.continuedBy (ub : UsbBuffer) (td : Td) : Bool :=
  isActiveTd td && ub.pid = getPidFromTd td && td.buffer = UInt32.ofNat (ub.padr + ub.len)

def usesBuffer (td : Td) : Bool := isActiveTd td && td.buffer ≠ 0

def makeBufferListFrom (ub : UsbBuffer) : List Td → List UsbBuffer
  | [] => [ub]
  | td :: tds =>
    if ub.continuedBy td then makeBufferListFrom { ub with len := ub.len + uhciTdMaxlen td } tds
    else ub :: if usesBuffer td then makeBufferListFrom (newBuffer td ub.nextOffset) tds else []

def makeBufferList : List Td → List UsbBuffer
  | [] => []
  | td :: tds => if usesBuffer td then makeBufferListFrom (newBuffer td 0) tds else []

/-- Where `alloc2_aligned` puts the duplicates of the buffers: each below 4 GiB, no two over each other. -/
structure HostBuffers (gubs : List UsbBuffer) where
  padr : ℕ → ℕ
  below : ∀ k gub, gubs[k]? = some gub → padr k + gub.len ≤ 2 ^ 32
  apart : ∀ j k left right, gubs[j]? = some left → gubs[k]? = some right → j ≠ k →
    padr j + left.len ≤ padr k ∨ padr k + right.len ≤ padr j

def duplicateBuffers (padr : ℕ → ℕ) (gubs : List UsbBuffer) : List UsbBuffer :=
  gubs.mapIdx fun k gub => { gub with padr := padr k }

def inBuffer (gub : UsbBuffer) (buffer : UInt32) : Bool := gub.padr ≤ buffer.toNat && buffer.toNat < gub.padr + gub.len

/-- The inner loop of `uhci_shadow_buffer` over the guest's and the host's buffers; `none` where the `ASSERT`
on the host's address fails. -/
def fitBuffer : List (UsbBuffer × UsbBuffer) → UInt32 → Option UInt32
  | [], buffer => some buffer
  | (gub, hub) :: rest, buffer =>
    if hub.padr < gub.padr then none
    else if inBuffer gub buffer then some (buffer + UInt32.ofNat (hub.padr - gub.padr))
    else fitBuffer rest buffer

def fitTd (buffers : List (UsbBuffer × UsbBuffer)) (td : Td) : Option Td :=
  if usesBuffer td then (fitBuffer buffers td.buffer).map fun buffer => { td with buffer := buffer }
  else some td

def uhciShadowBuffer (gubs : List UsbBuffer) (padr : ℕ → ℕ) (tds : List Td) : Option (List Td) :=
  if gubs = [] then some tds else tds.mapM (fitTd (gubs.zip (duplicateBuffers padr gubs)))

/-!
The blocks that `make_buffer_list` finds are the runs of descriptors that continue each other, and a run
covers one range of addresses.
-/

open List

def continues (last td : Td) : Bool :=
  isActiveTd td && getPidFromTd last = getPidFromTd td && td.buffer = last.buffer + UInt32.ofNat (uhciTdMaxlen last)

def runs (tds : List Td) : List (List Td) := tds.splitBy continues

def begins (run : List Td) : Bool := run.head?.any usesBuffer

def total (run : List Td) : ℕ := (run.map uhciTdMaxlen).sum

def extent : List Td → ℕ × ℕ
  | [] => (0, 0)
  | td :: run => (td.buffer.toNat, total (td :: run))

structure EndsWith (ub : UsbBuffer) (last : Td) : Prop where
  pid : ub.pid = getPidFromTd last
  next : UInt32.ofNat (ub.padr + ub.len) = last.buffer + UInt32.ofNat (uhciTdMaxlen last)

theorem endsWith_new (td : Td) (offset : ℕ) : EndsWith (newBuffer td offset) td := ⟨rfl, by simp [newBuffer]⟩

variable {last td : Td}

theorem EndsWith.continuedBy {ub : UsbBuffer} (ends : EndsWith ub last) (td : Td) :
    ub.continuedBy td = continues last td := by
  rw [UsbBuffer.continuedBy, continues, ends.pid, ends.next]

theorem EndsWith.extend {ub : UsbBuffer} (ends : EndsWith ub last) (more : continues last td = true) :
    EndsWith { ub with len := ub.len + uhciTdMaxlen td } td := by
  simp only [continues, Bool.and_eq_true, decide_eq_true_eq] at more
  refine ⟨ends.pid.trans more.1.2, ?_⟩
  rw [more.2, ← ends.next, ← Nat.add_assoc, UInt32.ofNat_add]

section

variable (tds : List Td)
include tds

theorem makeBufferListFrom_runs : ∀ (ub : UsbBuffer) (last : Td), EndsWith ub last →
    ∃ run rest, runs (last :: tds) = (last :: run) :: rest ∧
      (makeBufferListFrom ub tds).map (fun ub => (ub.padr, ub.len)) =
        (ub.padr, ub.len + total run) :: (rest.takeWhile begins).map extent := by
  induction tds with
  | nil => exact fun ub last _ => ⟨[], [], rfl, rfl⟩
  | cons td tds ih =>
    intro ub last ends
    rw [makeBufferListFrom, ends.continuedBy]
    cases more : continues last td with
    | true =>
      obtain ⟨run, rest, split, blocks⟩ := ih _ td (ends.extend more)
      obtain ⟨run', rest', split', joined⟩ := Segments.splitBy_joined more tds
      cases split.symm.trans split'
      refine ⟨td :: run, rest, joined, ?_⟩
      rw [if_pos rfl, blocks]
      simp [total, Nat.add_assoc]
    | false =>
      have apart := Segments.splitBy_apart more tds
      refine ⟨[], runs (td :: tds), apart, ?_⟩
      rw [if_neg Bool.false_ne_true]
      cases uses : usesBuffer td with
      | true =>
        obtain ⟨run, rest, split, blocks⟩ := ih _ td (endsWith_new td ub.nextOffset)
        rw [if_pos rfl, map_cons, blocks, split, takeWhile_cons_of_pos (by simpa [begins] using uses)]
        simp [newBuffer, extent, total]
      | false =>
        obtain ⟨run, rest, split⟩ := Segments.splitBy_cons (r := continues) td tds
        rw [if_neg Bool.false_ne_true, runs, split, takeWhile_cons_of_neg (by simp [begins, uses])]
        rfl

theorem makeBufferList_runs :
    (makeBufferList tds).map (fun ub => (ub.padr, ub.len)) = ((runs tds).takeWhile begins).map extent := by
  cases tds with
  | nil => rfl
  | cons td tds =>
    rw [makeBufferList]
    cases uses : usesBuffer td with
    | true =>
      obtain ⟨run, rest, split, blocks⟩ := makeBufferListFrom_runs tds _ td (endsWith_new td 0)
      rw [if_pos rfl, blocks, split, takeWhile_cons_of_pos (by simpa [begins] using uses)]
      simp [newBuffer, extent, total]
    | false =>
      obtain ⟨run, rest, split⟩ := Segments.splitBy_cons (r := continues) td tds
      rw [if_neg Bool.false_ne_true, runs, split, takeWhile_cons_of_neg (by simp [begins, uses])]
      rfl

theorem makeBufferList_extent (k : ℕ) :
    (makeBufferList tds)[k]?.map (fun ub => (ub.padr, ub.len)) = ((runs tds).takeWhile begins)[k]?.map extent := by
  rw [← List.getElem?_map, ← List.getElem?_map, makeBufferList_runs]

theorem makeBufferList_get (k : ℕ) (gub : UsbBuffer) (place : (makeBufferList tds)[k]? = some gub) :
    ∃ run, (runs tds)[k]? = some run ∧ (gub.padr, gub.len) = extent run ∧
      ∀ j ≤ k, ∀ earlier, (runs tds)[j]? = some earlier → begins earlier = true := by
  have same := makeBufferList_extent tds k
  rw [place] at same
  obtain ⟨run, among, extents⟩ := Option.map_eq_some_iff.mp same.symm
  obtain ⟨there, all⟩ := (Segments.getElem?_takeWhile _ k).mp among
  exact ⟨run, there, extents.symm, all⟩

theorem exists_block (k : ℕ) (run : List Td) (place : (runs tds)[k]? = some run)
    (all : ∀ j ≤ k, ∀ earlier, (runs tds)[j]? = some earlier → begins earlier = true) :
    ∃ gub, (makeBufferList tds)[k]? = some gub ∧ (gub.padr, gub.len) = extent run := by
  have same := makeBufferList_extent tds k
  rw [(Segments.getElem?_takeWhile _ k).mpr ⟨place, all⟩] at same
  exact Option.map_eq_some_iff.mp same

end

def covers (td : Td) (x : ℕ) : Prop := td.buffer.toNat ≤ x ∧ x < td.buffer.toNat + uhciTdMaxlen td

theorem uhciTdMaxlen_zero (zero : td.buffer = 0) : uhciTdMaxlen td = 0 := by
  simp [uhciTdMaxlen, zero]

theorem continues_buffer (more : continues last td = true) :
    td.buffer = last.buffer + UInt32.ofNat (uhciTdMaxlen last) := by
  simp only [continues, Bool.and_eq_true, decide_eq_true_eq] at more
  exact more.2

theorem zero_run (run : List Td) : ∀ td : Td, (td :: run).IsChain (fun last td => continues last td = true) →
    td.buffer = 0 → ∀ t ∈ td :: run, t.buffer = 0 := by
  induction run with
  | nil => simp
  | cons next run ih =>
    intro td chain zero
    rw [isChain_cons_cons] at chain
    have nextZero : next.buffer = 0 := by
      rw [continues_buffer chain.1, zero, uhciTdMaxlen_zero zero]
      rfl
    rw [forall_mem_cons]
    exact ⟨zero, ih next chain.2 nextZero⟩

theorem next_buffer (more : continues last td = true) (below : last.buffer.toNat + uhciTdMaxlen last ≤ 2 ^ 32) :
    td.buffer.toNat = last.buffer.toNat + uhciTdMaxlen last ∨ td.buffer = 0 := by
  rw [continues_buffer more]
  rcases Nat.lt_or_ge (last.buffer.toNat + uhciTdMaxlen last) (2 ^ 32) with lower | wraps
  · left
    rw [UInt32.toNat_add, UInt32.toNat_ofNat', Nat.mod_eq_of_lt (a := uhciTdMaxlen last) (by omega),
      Nat.mod_eq_of_lt lower]
  · right
    apply UInt32.toNat_inj.mp
    rw [UInt32.toNat_add, UInt32.toNat_ofNat', Nat.add_mod_mod, Nat.le_antisymm below wraps]
    rfl

theorem total_zero {run : List Td} (zero : ∀ t ∈ run, t.buffer = 0) : total run = 0 := by
  induction run with
  | nil => rfl
  | cons td run ih =>
    rw [forall_mem_cons] at zero
    have rest := ih zero.2
    rw [total] at rest ⊢
    rw [map_cons, sum_cons, uhciTdMaxlen_zero zero.1, rest]

theorem covers_run (run : List Td) : ∀ td : Td, (td :: run).IsChain (fun last td => continues last td = true) →
    td.buffer.toNat + total (td :: run) ≤ 2 ^ 32 → ∀ x : ℕ,
      (∃ t ∈ td :: run, covers t x) ↔ td.buffer.toNat ≤ x ∧ x < td.buffer.toNat + total (td :: run) := by
  induction run with
  | nil => simp [covers, total]
  | cons next run ih =>
    intro td chain below x
    rw [isChain_cons_cons] at chain
    have split : total (td :: next :: run) = uhciTdMaxlen td + total (next :: run) := by simp [total]
    rw [split] at below ⊢
    rw [exists_mem_cons_iff]
    rcases next_buffer chain.1 (by omega) with follows | zero
    · rw [ih next chain.2 (by omega) x, covers]
      omega
    · have all := zero_run run next chain.2 zero
      have none : ¬ ∃ t ∈ next :: run, covers t x := by
        rintro ⟨t, member, lower, upper⟩
        rw [uhciTdMaxlen_zero (all t member)] at upper
        omega
      rw [or_iff_left none, total_zero all]
      rfl

theorem inside_run (run : List Td) : ∀ td : Td, (td :: run).IsChain (fun last td => continues last td = true) →
    td.buffer.toNat + total (td :: run) ≤ 2 ^ 32 → ∀ t ∈ td :: run, t.buffer ≠ 0 →
      td.buffer.toNat ≤ t.buffer.toNat ∧ t.buffer.toNat + uhciTdMaxlen t ≤ td.buffer.toNat + total (td :: run) := by
  induction run with
  | nil => simp [total]
  | cons next run ih =>
    intro td chain below t member nonzero
    rw [isChain_cons_cons] at chain
    have split : total (td :: next :: run) = uhciTdMaxlen td + total (next :: run) := by simp [total]
    rw [split] at below ⊢
    rcases mem_cons.mp member with rfl | later
    · omega
    · rcases next_buffer chain.1 (by omega) with follows | zero
      · have rest := ih next chain.2 (by omega) t later nonzero
        omega
      · exact absurd (zero_run run next chain.2 zero t later) nonzero

end DisasVisor.Usb.Uhci
