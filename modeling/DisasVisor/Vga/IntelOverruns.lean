import DisasVisor.Vga.Intel
import Mathlib.Tactic.Ring

/-!
Without fences the frame buffer stays in the mapped memory only where the surface is straight: the
calls that go beyond it otherwise.
-/

namespace DisasVisor.Vga

open List

theorem xor_block (x : Nat) : x / 512 * 512 ≤ x ^^^ 64 := by
  have block : (x ^^^ 64) / 2 ^ 9 = x / 2 ^ 9 ^^^ 64 / 2 ^ 9 := Nat.xor_div_two_pow
  have zero : (64 : Nat) / 2 ^ 9 = 0 := rfl
  rw [zero, Nat.xor_zero] at block
  omega

def Reaches (copies : List Copy) (place : Nat) : Prop := ∃ copy ∈ copies, 0 < copy.nbytes ∧ place ≤ copy.offset

theorem Reaches.mono {copies more : List Copy} {place : Nat} (reaches : Reaches copies place)
    (subset : copies ⊆ more) : Reaches more place := by
  obtain ⟨copy, member, found⟩ := reaches
  exact ⟨copy, subset member, found⟩

variable {len buf nbytes off tmp1 : Nat}

theorem Reaches.not_below {copies : List Copy} {place : Nat} (reaches : Reaches copies place) (beyond : len ≤ place) :
    ¬Below copies len := by
  obtain ⟨copy, member, some', after⟩ := reaches
  intro below
  have inside := below copy member 0 some'
  omega

theorem copylineSub2_reaches {offset : Nat} (swap64 : Bool) (some' : 0 < nbytes) :
    Reaches (copylineSub2 offset buf nbytes swap64) (offset / 512 * 512) := by
  unfold copylineSub2
  split
  · cases nbytes with
    | zero => exact absurd some' (Nat.lt_irrefl 0)
    | succ n =>
      unfold swap64Copies
      split
      · refine ⟨_, mem_cons_self, ?_, xor_block offset⟩
        exact Nat.sub_pos_of_lt (Nat.mod_lt offset (by decide))
      · exact ⟨_, mem_cons_self, some', xor_block offset⟩
  · exact ⟨_, mem_cons_self, some', Nat.div_mul_le_self offset 512⟩

theorem copylineSub_reaches {swap64 : Bool} {swap64Line offset : Nat} (some' : 0 < nbytes) :
    Reaches (copylineSub swap64 swap64Line [] offset buf nbytes) (offset / 512 * 512) := by
  unfold copylineSub
  rw [if_pos some']
  exact copylineSub2_reaches swap64 some'

namespace VgaFuncData

variable {d : VgaFuncData} {swap64 : Bool}

theorem tileLoop_first (unfenced : d.fences = []) (fuel : Nat) {off2 : Nat} (some' : 0 < nbytes) (room : 0 < len)
    (small : off + off2 < 2 ^ 32) :
    Reaches (d.tileLoop swap64 fuel off off2 buf nbytes len) ((off + off2) / 512 * 512) := by
  cases fuel with
  | zero =>
    unfold tileLoop
    rw [unfenced, u32_of_lt small]
    exact copylineSub_reaches some'
  | succ fuel =>
    unfold tileLoop
    rw [unfenced, u32_of_lt small]
    split
    · exact (copylineSub_reaches room).mono (subset_append_left _ _)
    · exact copylineSub_reaches some'

theorem tileLoop_later (unfenced : d.fences = []) (k : Nat) {fuel off2 : Nat} (long : len + 512 * k < nbytes)
    (enough : k < fuel) (small : off2 + 4096 * (k + 1) < 2 ^ 32) :
    Reaches (d.tileLoop swap64 fuel off off2 buf nbytes len) ((off2 + 4096 * (k + 1)) / 512 * 512) := by
  induction k generalizing fuel off off2 buf nbytes len with
  | zero =>
    cases fuel with
    | zero => omega
    | succ fuel =>
      unfold tileLoop
      rw [if_pos (by omega)]
      have left : 0 < nbytes - len := by omega
      have next : Reaches (d.tileLoop swap64 fuel 0 (off2 + 4096) (buf + len) (nbytes - len) 512)
          ((0 + (off2 + 4096)) / 512 * 512) := by
        apply tileLoop_first unfenced fuel left (by decide)
        rw [Nat.zero_add]
        exact small
      rw [Nat.zero_add] at next
      exact next.mono (subset_append_right _ _)
  | succ k ih =>
    cases fuel with
    | zero => omega
    | succ fuel =>
      unfold tileLoop
      rw [if_pos (by omega)]
      have place : off2 + 4096 + 4096 * (k + 1) = off2 + 4096 * (k + 1 + 1) := by omega
      have next : Reaches (d.tileLoop swap64 fuel 0 (off2 + 4096) (buf + len) (nbytes - len) 512)
          ((off2 + 4096 + 4096 * (k + 1)) / 512 * 512) := by
        apply ih
        · omega
        · omega
        · rw [place]
          exact small
      rw [place] at next
      exact next.mono (subset_append_right _ _)

theorem u32_sub_add {x offset : Nat} (fits : x < 2 ^ 32) (small : offset ≤ 4095) :
    u32 ((UInt32.ofNat (x + 2 ^ 32 - offset)).toNat + offset) = x := by
  unfold u32
  rw [UInt32.toNat_ofNat']
  omega

theorem lineStart_anywhere (d : VgaFuncData) (aligned : tmp1 % 4 = 0) (fits : tmp1 < 2 ^ 32) :
    ∃ x y : UInt32, d.lineStart (u32 (x.toNat + xOffset d.tiledOff))
      (u32 (y.toNat + yOffset d.tiledOff)) 0 = tmp1 := by
  refine ⟨UInt32.ofNat (tmp1 / 4 + 2 ^ 32 - xOffset d.tiledOff), UInt32.ofNat (0 + 2 ^ 32 - yOffset d.tiledOff), ?_⟩
  rw [u32_sub_add (by omega) (xOffset_le d.tiledOff), u32_sub_add (by omega) (yOffset_le d.tiledOff)]
  have zero : u32 (0 + 0) = 0 := rfl
  unfold lineStart
  rw [zero, Nat.zero_mul, Nat.zero_add, Nat.div_mul_cancel (Nat.dvd_of_mod_eq_zero aligned)]
  exact u32_of_lt fits

theorem line_below (within : ∀ dir type stride width lines x y,
    Below (d.vgaIntelTransferImage dir type stride width lines x y).2 d.vramMappedLen) (ready : d.ready = true)
    (small : d.vramMappedLen < 2 ^ 31) (aligned : tmp1 % 4 = 0) (inside : tmp1 < d.vramMappedLen) :
    Below (d.copyline tmp1 0 (d.vramMappedLen - tmp1)) d.vramMappedLen := by
  obtain ⟨x, y, start⟩ := d.lineStart_anywhere aligned (by omega)
  have called := within .put .bgrx8888 0 0x3FFFFFFF 1 x y
  have stop : d.lineStop tmp1 0x3FFFFFFF = d.vramMappedLen := by
    have wide : u32 ((0x3FFFFFFF : UInt32).toNat * 4) = 0xFFFFFFFC := rfl
    unfold lineStop
    rw [wide]
    exact Nat.min_eq_right (by omega)
  have one : List.range (1 : UInt32).toNat = [0] := rfl
  unfold vgaIntelTransferImage at called
  have nothing : u32 0 = 0 := rfl
  simpa [ready, one, filter_cons, start, stop, inside, nothing] using called

theorem pixel_below (within : ∀ type x y width height,
    Below (d.vgaIntelFillRect type x y width height).2 d.vramMappedLen) (ready : d.ready = true)
    (small : d.vramMappedLen < 2 ^ 31) (aligned : tmp1 % 4 = 0) (inside : tmp1 < d.vramMappedLen) :
    Below (d.copyline tmp1 0 4) d.vramMappedLen := by
  obtain ⟨x, y, start⟩ := d.lineStart_anywhere aligned (by omega)
  have called := within .bgrx8888 x y 1 1
  have pixel : pixels tmp1 (d.lineStop tmp1 1) = [tmp1] := by
    have count : (d.lineStop tmp1 1 - tmp1 + 3) / 4 = 1 := by
      have four : u32 ((1 : UInt32).toNat * 4) = 4 := rfl
      unfold lineStop
      rw [four]
      omega
    unfold pixels
    rw [count]
    rfl
  have one : List.range (1 : UInt32).toNat = [0] := rfl
  unfold vgaIntelFillRect at called
  simpa [ready, one, start, pixel] using called

theorem of_below_single {offset : Nat} (below : Below [⟨offset, buf, nbytes⟩] len) (some' : 0 < nbytes) :
    offset + nbytes ≤ len := by
  have last := below _ mem_cons_self (nbytes - 1) (by simpa using some')
  simp only at last
  omega

section
variable (lines : ∀ {tmp1}, tmp1 % 4 = 0 → tmp1 < d.vramMappedLen →
    Below (d.copyline tmp1 0 (d.vramMappedLen - tmp1)) d.vramMappedLen)
  (dots : ∀ {tmp1}, tmp1 % 4 = 0 → tmp1 < d.vramMappedLen → Below (d.copyline tmp1 0 4) d.vramMappedLen)
  (some' : 0 < d.vramMappedLen)
include lines dots some'

theorem page_of_moved (moved : ∀ {tmp1 nbytes}, 0 < nbytes → tmp1 < d.vramMappedLen →
    tmp1 + nbytes ≤ d.vramMappedLen + 3 →
    d.copyline tmp1 0 nbytes = [⟨d.vramOff + tmp1, 0, nbytes⟩]) : d.vramOff = 0 ∧ d.vramMappedLen % 4 = 0 := by
  have whole := lines (Nat.zero_mod 4) some'
  rw [moved (by omega) some' (by omega)] at whole
  have page := of_below_single whole some'
  have last : Below (d.copyline (d.vramMappedLen - 1 - (d.vramMappedLen - 1) % 4) 0 4) d.vramMappedLen :=
    dots (by omega) (by omega)
  rw [moved (by omega) (by omega) (by omega)] at last
  have dot := of_below_single last (by omega)
  omega

theorem straight_of_fast (tiled : d.tiled = true)
    (fast : d.fastPath (d.vramOff + d.vramMappedLen + 3) = true) : d.Straight := by
  obtain ⟨page, whole⟩ := page_of_moved lines dots some' fun {tmp1 nbytes} _ _ inside =>
    copyline_fast tiled (fastPath_mono (by omega) fast)
  refine ⟨page, whole, ?_⟩
  rw [if_pos tiled]
  exact .inl (fastPath_mono (by omega) fast)

theorem straight_of_linear (linear : ¬d.tiled = true) (unfenced : d.fences = [])
    (small : d.vramMappedLen < 2 ^ 31) (offset : d.vramOff < 4096) : d.Straight := by
  have none' : ∀ len, ∀ f ∈ d.fences, len ≤ f.start ∨ f.stop = 0 := by
    intro len f member
    rw [unfenced] at member
    exact absurd member not_mem_nil
  obtain ⟨page, whole⟩ := page_of_moved lines dots some' fun {tmp1 nbytes} positive _ inside =>
    copyline_linear linear (none' (d.vramOff + d.vramMappedLen + 3)) positive (by omega) (by omega)
  refine ⟨page, whole, ?_⟩
  rw [if_neg linear]
  exact none' _

end

def tileBlock (d : VgaFuncData) (off : Nat) : Nat :=
  off / d.stride / 8 * 8 * d.stride + (off % d.stride &&& 0xE00) * 8 + off / d.stride % 8 * 512

theorem tileBlock_mod (rows : d.stride % 64 = 0) (off : Nat) : d.tileBlock off % 512 = 0 := by
  obtain ⟨s, same⟩ := Nat.dvd_of_mod_eq_zero rows
  have first : off / d.stride / 8 * 8 * d.stride = off / d.stride / 8 * s * 512 := by
    rw [same]
    ring
  unfold tileBlock
  rw [first, and_tile]
  omega

theorem tileBlock_le (off : Nat) : d.tileBlock off ≤ off + 0x7E00 := by
  have row : off / d.stride / 8 * 8 * d.stride ≤ off := by
    calc off / d.stride / 8 * 8 * d.stride ≤ off / d.stride * d.stride :=
          Nat.mul_le_mul_right _ (Nat.div_mul_le_self _ 8)
      _ ≤ off := Nat.div_mul_le_self _ _
  unfold tileBlock
  rw [and_tile]
  omega

theorem tileBlock_first (first : off < d.stride) : d.tileBlock off = off / 512 % 8 * 4096 := by
  unfold tileBlock
  rw [Nat.div_eq_of_lt first, Nat.mod_eq_of_lt first, and_tile]
  omega

theorem tileBlock_later (rows : d.stride % 64 = 0) (positive : 0 < d.stride) (later : d.stride ≤ off) :
    512 ≤ d.tileBlock off := by
  have number := Nat.div_pos later positive
  unfold tileBlock
  by_cases group : off / d.stride < 8
  · omega
  · have more : 1 * 8 * 64 ≤ off / d.stride / 8 * 8 * d.stride :=
      Nat.mul_le_mul (by omega) (by omega)
    omega

structure Bare (d : VgaFuncData) : Prop where
  tiled : d.tiled = true
  unfenced : d.fences = []
  slow : ∀ stop, ¬d.fastPath stop = true
  offset : d.vramOff < 4096
  rows : d.stride % 64 = 0
  positive : 0 < d.stride

theorem Bare.copyline (bare : d.Bare) (tmp1 nbytes : Nat) : d.copyline tmp1 0 nbytes =
    d.tileLoop (d.swap64Line.testBit ((d.vramOff + tmp1) / d.stride % 8)) nbytes
      ((d.vramOff + tmp1) % 512) (d.tileBlock (d.vramOff + tmp1)) 0 nbytes
      (512 - (d.vramOff + tmp1) % 512) := by
  unfold VgaFuncData.copyline
  dsimp only
  rw [if_pos bare.tiled, if_neg (bare.slow _)]
  rfl

theorem Bare.short (bare : d.Bare) (small : d.vramMappedLen < 2 ^ 31)
    (first : Below (d.copyline 0 0 d.vramMappedLen) d.vramMappedLen) : d.vramMappedLen ≤ 512 - d.vramOff % 512 := by
  by_contra long
  rw [bare.copyline] at first
  have aligned := tileBlock_mod bare.rows (d.vramOff + 0)
  have near := d.tileBlock_le (d.vramOff + 0)
  have offset := bare.offset
  revert first
  generalize d.tileBlock (d.vramOff + 0) = off2 at aligned near
  generalize number : (d.vramMappedLen - off2 - 1) / 4096 = k
  have beyond : d.vramMappedLen ≤ off2 + 4096 * (k + 1) := by omega
  have close : off2 + 4096 * (k + 1) < 2 ^ 32 := by omega
  have place : (off2 + 4096 * (k + 1)) / 512 * 512 = off2 + 4096 * (k + 1) := by omega
  apply (tileLoop_later bare.unfenced k (by omega) (by omega) close).not_below
  rw [place]
  exact beyond

theorem Bare.reaches (bare : d.Bare) (some' : 0 < nbytes) (low : d.vramOff + tmp1 < 8192) :
    Reaches (d.copyline tmp1 0 nbytes)
      (((d.vramOff + tmp1) % 512 + d.tileBlock (d.vramOff + tmp1)) / 512 * 512) := by
  have near := d.tileBlock_le (d.vramOff + tmp1)
  rw [bare.copyline]
  apply tileLoop_first bare.unfenced nbytes some'
  · omega
  · omega

theorem straight_of_tiled (bare : d.Bare) (lines : ∀ {tmp1}, tmp1 % 4 = 0 → tmp1 < d.vramMappedLen →
      Below (d.copyline tmp1 0 (d.vramMappedLen - tmp1)) d.vramMappedLen)
    (dots : ∀ {tmp1}, tmp1 % 4 = 0 → tmp1 < d.vramMappedLen → Below (d.copyline tmp1 0 4) d.vramMappedLen)
    (some' : 0 < d.vramMappedLen) (small : d.vramMappedLen < 2 ^ 31) : d.Straight := by
  have none' : ∀ len, ∀ f ∈ d.fences, len ≤ f.start ∨ f.stop = 0 := by
    intro len f member
    rw [bare.unfenced] at member
    exact absurd member not_mem_nil
  have offset := bare.offset
  have rows := bare.rows
  have first : Below (d.copyline 0 0 d.vramMappedLen) d.vramMappedLen := lines (Nat.zero_mod 4) some'
  have short := bare.short small first
  have page : d.vramOff = 0 := by
    by_cases row : d.vramOff < d.stride
    · rw [bare.copyline, Nat.add_zero, Nat.div_eq_of_lt row, Nat.zero_mod, swap64Line_zero,
        tileBlock_first row] at first
      obtain ⟨n, same⟩ := Nat.exists_eq_succ_of_ne_zero some'.ne'
      rw [same] at first short
      unfold tileLoop at first
      rw [if_neg (by omega), bare.unfenced, u32_of_lt (by omega)] at first
      have inside := of_below_single first n.succ_pos
      omega
    · have block := tileBlock_later rows bare.positive (not_lt.mp row)
      have reaches : Reaches (d.copyline 0 0 d.vramMappedLen)
          (((d.vramOff + 0) % 512 + d.tileBlock (d.vramOff + 0)) / 512 * 512) :=
        bare.reaches some' (by omega)
      rw [Nat.add_zero] at reaches
      exact absurd first (reaches.not_below (by omega))
  have row : d.vramMappedLen ≤ d.stride := by
    by_contra long
    have second : Below (d.copyline d.stride 0 (d.vramMappedLen - d.stride)) d.vramMappedLen :=
      lines (by omega) (by omega)
    have block := tileBlock_later rows bare.positive (le_refl d.stride)
    have reaches : Reaches (d.copyline d.stride 0 (d.vramMappedLen - d.stride))
        (((d.vramOff + d.stride) % 512 + d.tileBlock (d.vramOff + d.stride)) / 512 * 512) :=
      bare.reaches (by omega) (by omega)
    rw [page, Nat.zero_add] at reaches
    exact absurd second (reaches.not_below (by omega))
  have last : Below (d.copyline (d.vramMappedLen - 1 - (d.vramMappedLen - 1) % 4) 0 4) d.vramMappedLen :=
    dots (by omega) (by omega)
  rw [copyline_tile bare.tiled page (none' (d.vramMappedLen - 1 - (d.vramMappedLen - 1) % 4 + 4))
    (by omega) (by omega) (by decide) le_rfl] at last
  have inside := of_below_single last (by decide)
  refine ⟨page, by omega, ?_⟩
  rw [if_pos bare.tiled]
  exact .inr ⟨none' _, by omega, row⟩

def Simple (d : VgaFuncData) : Prop :=
  d.nfence = 0 ∨ d.tiled = true ∧ d.fastPath (d.vramOff + d.vramMappedLen + 3) = true

theorem Within.meets {reg : Registers} {ab : Nat} (within : d.Within reg ab) (ready : Ready reg ab d)
    (simple : d.Simple) : d.Meets reg ab := by
  obtain ⟨inside, transfers, fills⟩ := within
  have offset : d.vramOff < 4096 := by
    rw [ready.vramOff]
    exact Nat.mod_lt _ (by decide)
  have short : d.stride ≤ 0xFFC0 := ready.stride.symm ▸ strideOf_le reg ab
  have rows : d.stride % 64 = 0 := ready.stride.symm ▸ strideOf_mod reg ab
  have positive : 0 < d.stride := Nat.pos_of_ne_zero (ready.stride.symm ▸ ready.stride_ne)
  have small : d.vramMappedLen < 2 ^ 31 := by
    rw [ready.mappedLen]
    exact mappedLen_lt offset short
  refine ⟨by omega, ?_⟩
  rcases Nat.eq_zero_or_pos d.vramMappedLen with empty | some'
  · exact .inl empty
  · have lines : ∀ {tmp1}, tmp1 % 4 = 0 → tmp1 < d.vramMappedLen →
        Below (d.copyline tmp1 0 (d.vramMappedLen - tmp1)) d.vramMappedLen :=
      line_below transfers ready.ready small
    have dots : ∀ {tmp1}, tmp1 % 4 = 0 → tmp1 < d.vramMappedLen →
        Below (d.copyline tmp1 0 4) d.vramMappedLen := pixel_below fills ready.ready small
    right
    rcases simple with none' | ⟨tiled, fast⟩
    · have unfenced : d.fences = [] := by
        unfold fences
        rw [none']
        rfl
      by_cases tiled : d.tiled = true
      · have slow : ∀ stop, ¬d.fastPath stop = true := by
          intro stop
          unfold fastPath
          rw [ready.fence0 none']
          exact Bool.false_ne_true
        exact straight_of_tiled ⟨tiled, unfenced, slow, offset, rows, positive⟩ lines dots some' small
      · exact straight_of_linear lines dots some' tiled unfenced small offset
    · exact straight_of_fast lines dots some' tiled fast

end VgaFuncData

/-- A straight surface stays in the mapped part, and without fences that have to move bytes only a
straight one does. -/
theorem vgaIntel_within {data d : VgaFuncData} {reg : Registers} {regMapped vramMapped : Bool} {ab : Nat}
    (is_ready : vgaIntelIsReady data reg regMapped vramMapped = (true, d)) (plane : enabledPlane reg = some ab) :
    (d.Meets reg ab → d.Within reg ab) ∧ (d.Simple → (d.Within reg ab ↔ d.Meets reg ab)) := by
  obtain ⟨ab', plane', ready⟩ := vgaIntelIsReady_ready is_ready
  have same : ab' = ab := Option.some.inj (plane'.symm.trans plane)
  rw [same] at ready
  exact ⟨fun meets => meets.within ready, fun simple =>
    ⟨fun within => within.meets ready simple, fun meets => meets.within ready⟩⟩

def sampleRegisters (offset : UInt32) : Registers := fun place =>
  if place = 0x70180 then 0x98000000
  else if place = 0x70188 then 64
  else if place = 0x70184 then offset
  else 0

def sampleData : VgaFuncData where
  regLen := 0x80000
  vramLen := 0x10000
  deviceId := 0
  vramMappedLen := 0
  stride := 0
  srcsize := 0
  vramOff := 0
  tiledOff := 0
  tiled := false
  nfence := 0
  fence := fun _ => ⟨0, 0, 0⟩
  fence0 := none
  ready := false

theorem vgaIntel_within_sample :
    ∃ d, vgaIntelIsReady sampleData (sampleRegisters 0) true true = (true, d) ∧
      enabledPlane (sampleRegisters 0) = some 0 ∧ d.Meets (sampleRegisters 0) 0 ∧
      d.Within (sampleRegisters 0) 0 := by
  have is_ready : vgaIntelIsReady sampleData (sampleRegisters 0) true true =
      (true, (vgaIntelIsReady sampleData (sampleRegisters 0) true true).2) := rfl
  have plane : enabledPlane (sampleRegisters 0) = some 0 := rfl
  have meets : (vgaIntelIsReady sampleData (sampleRegisters 0) true true).2.Meets (sampleRegisters 0) 0 := by
    refine ⟨by decide, .inr ⟨rfl, rfl, ?_⟩⟩
    intro f member
    exact absurd member not_mem_nil
  exact ⟨_, is_ready, plane, meets, (vgaIntel_within is_ready plane).1 meets⟩

/-- With the surface 4 bytes after a page a whole line goes 4 bytes too far. -/
theorem vgaIntel_breaks :
    ¬∀ (data d : VgaFuncData) (reg : Registers) (regMapped vramMapped : Bool) (ab : Nat),
      vgaIntelIsReady data reg regMapped vramMapped = (true, d) → enabledPlane reg = some ab →
        d.Within reg ab := by
  intro all
  have is_ready : vgaIntelIsReady sampleData (sampleRegisters 4) true true =
      (true, (vgaIntelIsReady sampleData (sampleRegisters 4) true true).2) := rfl
  have within := all _ _ _ _ _ 0 is_ready rfl
  have copied := within.2.1 .put .bgrx8888 0 100 1 0 0
  exact absurd (copied ⟨4, 0, 260⟩ (by decide) 259 (by decide)) (by decide)

end DisasVisor.Vga
