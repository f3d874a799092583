import DisasVisor.Vga.IntelTiles

/-!
A line in one call and in pieces, without fences: the bytes go to the same places, and two pixels share none.
-/

namespace DisasVisor.Vga

open List

variable {buf m n off off' offset nbytes rows stride swap64Line : Nat}

theorem movesTo_length (buf n : Nat) (place : Nat → Nat) : (movesTo buf n place).length = n := by
  unfold movesTo
  rw [length_map, length_range]

theorem movesTo_snd (buf n : Nat) (place : Nat → Nat) : (movesTo buf n place).map Prod.snd = (range n).map place := by
  unfold movesTo
  rw [map_map]
  rfl

theorem moves_flatMap (numbers : List Nat) (copies : Nat → List Copy) :
    (moves (numbers.flatMap copies)).map Prod.snd = numbers.flatMap fun i => (moves (copies i)).map Prod.snd := by
  unfold moves
  rw [flatMap_assoc, map_flatMap]

theorem swapped_div (swap64 : Bool) (x : Nat) : swapped swap64 x / 512 = x / 512 := by
  have high : (x / 64 ^^^ 1) / 2 = x / 64 / 2 ^^^ 1 / 2 := @Nat.xor_div_two_pow (x / 64) 1 1
  rw [Nat.div_eq_of_lt (by decide : 1 < 2), Nat.xor_zero] at high
  unfold swapped
  split
  · rw [xor_64]
    omega
  · rfl

theorem swapped_inj (swap64 : Bool) {x y : Nat} (same : swapped swap64 x = swapped swap64 y) : x = y := by
  unfold swapped at same
  split at same
  · have back (z : Nat) : z ^^^ 64 ^^^ 64 = z := by rw [Nat.xor_assoc, Nat.xor_self, Nat.xor_zero]
    rw [← back x, same, back]
  · exact same

namespace VgaFuncData

variable {data : VgaFuncData}

def tileAddress (swap64Line stride row column : Nat) : Nat :=
  swapped (swap64Line.testBit (row % 8)) (rowBase stride row + column / 512 * 4096 + column % 512)

def tiledAddress (swap64Line stride off : Nat) : Nat := tileAddress swap64Line stride (off / stride) (off % stride)

theorem tiledAddress_inj (whole : stride % 512 = 0) (positive : 0 < stride)
    (same : tiledAddress swap64Line stride off = tiledAddress swap64Line stride off') : off = off' := by
  obtain ⟨s, rfl⟩ := Nat.dvd_of_mod_eq_zero whole
  unfold tiledAddress tileAddress rowBase at same
  have column := Nat.mod_lt off positive
  have column' := Nat.mod_lt off' positive
  have parts := Nat.div_add_mod off (512 * s)
  have parts' := Nat.div_add_mod off' (512 * s)
  generalize off / (512 * s) = q, off % (512 * s) = c, off' / (512 * s) = q', off' % (512 * s) = c' at *
  have blocks := congrArg (· / 512) same
  rw [swapped_div, swapped_div] at blocks
  have block (g r : Nat) : (g / 8 * (8 * (512 * s)) + g % 8 * 512 + r / 512 * 4096 + r % 512) / 512 =
      8 * s * (g / 8) + (r / 512 * 8 + g % 8) := by
    have wide : g / 8 * (8 * (512 * s)) = 512 * (8 * s * (g / 8)) := by ring
    omega
  have rest {g r : Nat} (inRow : r < 512 * s) : r / 512 * 8 + g % 8 < 8 * s := by omega
  rw [block, block] at blocks
  have groups : q / 8 = q' / 8 := by
    have div := congrArg (· / (8 * s)) blocks
    rwa [Nat.mul_add_div (by omega), Nat.mul_add_div (by omega), Nat.div_eq_of_lt (rest column),
      Nat.div_eq_of_lt (rest column')] at div
  rw [groups] at blocks
  have number : q % 8 = q' % 8 := by omega
  have tile : c / 512 = c' / 512 := by omega
  rw [number, groups, tile] at same
  have inner := swapped_inj _ same
  have row : q = q' := by omega
  have place : c = c' := by omega
  rw [← parts, ← parts', row, place]

/-- `vga_intel_copyline`, for any `swap64_line`. -/
def copylineWith (swap64Line : Nat) (data : VgaFuncData) (offset buf nbytes : Nat) : List Copy :=
  if data.tiled then
    if data.fastPath (data.vramOff + offset + nbytes) then copylineSub2 (data.vramOff + offset) buf nbytes false
    else slowPath swap64Line data offset buf nbytes
  else copylineSub false swap64Line data.fences (u32 (data.vramOff + offset)) buf (u32 nbytes)

def copylines (swap64Line : Nat) (data : VgaFuncData) : Nat → Nat → List Nat → List Copy
  | _, _, [] => []
  | offset, buf, nbytes :: pieces =>
    copylineWith swap64Line data offset buf nbytes ++ copylines swap64Line data (offset + nbytes) (buf + nbytes) pieces

structure Plain (data : VgaFuncData) (rows : Nat) : Prop where
  ready : data.ready = true
  fences : data.nfence = 0
  fence0 : data.fence0 = none
  offset : data.vramOff < 4096
  positive : 0 < data.stride
  whole : data.stride % 512 = 0
  lines : 0 < rows
  small : (rows + 7) / 8 * (8 * data.stride) < 2 ^ 32

theorem Plain.unfenced (plain : data.Plain rows) : data.fences = [] := by
  unfold VgaFuncData.fences
  rw [plain.fences]
  rfl

theorem Plain.slow (plain : data.Plain rows) (stop : Nat) : ¬data.fastPath stop = true := by
  unfold fastPath
  rw [plain.fence0]
  exact Bool.false_ne_true

structure Inside (data : VgaFuncData) (rows offset nbytes : Nat) : Prop where
  within : data.column offset + nbytes ≤ data.stride
  below : data.vramOff + offset + nbytes ≤ rows * data.stride

theorem Line.inside (line : data.Line rows offset nbytes) : data.Inside rows offset nbytes where
  within := line.within
  below := by
    have parts := Nat.div_add_mod (data.vramOff + offset) data.stride
    have upTo := Nat.mul_le_mul_right data.stride (Nat.succ_le_of_lt line.row)
    have within := line.within
    rw [Nat.succ_mul] at upTo
    rw [Nat.mul_comm] at parts
    omega

theorem Inside.first (inside : data.Inside rows offset (m + n)) : data.Inside rows offset m where
  within := by
    have within := inside.within
    omega
  below := by
    have below := inside.below
    omega

theorem Inside.rest (positive : 0 < data.stride) (inside : data.Inside rows offset (m + n)) :
    data.Inside rows (offset + m) n where
  within := by
    have within := inside.within
    unfold column at *
    rw [← Nat.add_assoc, Nat.add_mod]
    generalize (data.vramOff + offset) % data.stride = c at *
    rcases Nat.lt_or_ge (c + m) data.stride with short | full
    · rw [Nat.mod_eq_of_lt (by omega : m < data.stride), Nat.mod_eq_of_lt short]
      omega
    · have last := Nat.mod_lt (c + m % data.stride) positive
      omega
  below := by
    have below := inside.below
    omega

theorem Inside.row_lt (inside : data.Inside rows offset (n + 1)) : data.row offset < rows :=
  Nat.div_lt_of_lt_mul (by
    have below := inside.below
    rw [Nat.mul_comm]
    omega)

theorem Plain.part (plain : data.Plain rows) {row : Nat} (inRows : row < rows) (swap64Line tile b m buf : Nat)
    (inTile : b + m ≤ 512) (inLine : tile * 512 + b + m ≤ data.stride) :
    moves (copylineSub (swap64Line.testBit (row % 8)) swap64Line data.fences
        (u32 (b + (rowBase data.stride row + tile * 4096))) buf m) =
      movesTo buf m fun k => tileAddress swap64Line data.stride row (tile * 512 + b + k) := by
  rw [plain.unfenced, copylineSub]
  cases m with
  | zero => rfl
  | succ m =>
    have small := plain.small
    obtain ⟨s, same⟩ := Nat.dvd_of_mod_eq_zero plain.whole
    have fits : b + (rowBase data.stride row + tile * 4096) < 2 ^ 32 := by
      rw [same] at small inLine ⊢
      have top : row / 8 * (8 * (512 * s)) + 8 * (512 * s) ≤ (rows + 7) / 8 * (8 * (512 * s)) := by
        rw [← Nat.succ_mul]
        exact Nat.mul_le_mul_right _ (by omega)
      unfold rowBase
      omega
    rw [if_pos m.succ_pos, u32_of_lt fits, moves_copylineSub2]
    refine movesTo_congr fun k below => congrArg (swapped _) ?_
    omega

theorem Plain.moves_tiled (plain : data.Plain rows) (tiled : data.tiled = true) (swap64Line buf : Nat)
    (inside : data.Inside rows offset n) : moves (copylineWith swap64Line data offset buf n) =
      movesTo buf n fun k => tileAddress swap64Line data.stride (data.row offset) (data.column offset % 4096 + k) := by
  rw [copylineWith, if_pos tiled, if_neg (plain.slow _)]
  cases n with
  | zero =>
    unfold slowPath
    dsimp only
    rw [tileCopies, plain.unfenced, copylineSub]
    rfl
  | succ n =>
    exact moves_slowPath swap64Line data offset buf (n + 1) plain.whole inside.within
      (plain.part inside.row_lt swap64Line)

def address (swap64Line : Nat) (data : VgaFuncData) (off : Nat) : Nat :=
  if data.tiled then tiledAddress swap64Line data.stride off else off

theorem Plain.moves (plain : data.Plain rows) (narrow : data.tiled = false ∨ data.stride ≤ 4096)
    (swap64Line buf : Nat) (inside : data.Inside rows offset n) :
    moves (copylineWith swap64Line data offset buf n) =
      movesTo buf n fun k => address swap64Line data (data.vramOff + offset + k) := by
  unfold address
  by_cases tiled : data.tiled = true
  · have column := Nat.mod_lt (data.vramOff + offset) plain.positive
    have within := inside.within
    rw [plain.moves_tiled tiled swap64Line buf inside]
    refine movesTo_congr fun k below => ?_
    rw [if_pos tiled, tiledAddress]
    unfold VgaFuncData.column VgaFuncData.row at *
    have short : data.stride ≤ 4096 := narrow.resolve_left (Bool.not_eq_false _ ▸ tiled)
    have parts := Nat.div_add_mod (data.vramOff + offset) data.stride
    generalize data.vramOff + offset = off at *
    have place : off + k = data.stride * (off / data.stride) + (off % data.stride + k) := by omega
    have inRow : off % data.stride + k < data.stride := by omega
    have number : (off + k) / data.stride = off / data.stride := by
      rw [place, Nat.mul_add_div plain.positive, Nat.div_eq_of_lt inRow, Nat.add_zero]
    have rest : (off + k) % data.stride = off % data.stride + k := by
      rw [place, Nat.mul_add_mod, Nat.mod_eq_of_lt inRow]
    rw [number, rest, Nat.mod_eq_of_lt (by omega)]
  · have upTo : rows * data.stride ≤ (rows + 7) / 8 * (8 * data.stride) := by
      rw [← Nat.mul_assoc]
      exact Nat.mul_le_mul_right _ (by omega)
    have below := inside.below
    have small := plain.small
    rw [copylineWith, if_neg tiled, plain.unfenced, u32_of_lt (by omega), u32_of_lt (by omega), copylineSub]
    simp only [if_neg tiled]
    split
    · rw [moves_copylineSub2]
      rfl
    · rename_i none'
      rw [Nat.eq_zero_of_not_pos none']
      rfl

theorem Plain.moves_copylines (plain : data.Plain rows) (narrow : data.tiled = false ∨ data.stride ≤ 4096)
    (swap64Line : Nat) (pieces : List Nat) : ∀ offset buf, data.Inside rows offset pieces.sum →
      Vga.moves (copylines swap64Line data offset buf pieces) =
        movesTo buf pieces.sum fun k => address swap64Line data (data.vramOff + offset + k) := by
  induction pieces with
  | nil => exact fun _ _ _ => rfl
  | cons n pieces ih =>
    intro offset buf inside
    rw [sum_cons] at inside ⊢
    rw [copylines, moves_append, plain.moves narrow swap64Line buf inside.first,
      ih _ _ (inside.rest plain.positive), movesTo_append]
    simp only [Nat.add_assoc]

structure Splits (swap64Line : Nat) (data : VgaFuncData) (rows : Nat) : Prop where
  pieces : ∀ offset buf pieces, data.Line rows offset pieces.sum →
    Vga.moves (copylines swap64Line data offset buf pieces) =
      Vga.moves (copylineWith swap64Line data offset buf pieces.sum)
  apart : ∀ pixel pixel', pixel % 4 = 0 → pixel' % 4 = 0 → pixel ≠ pixel' →
    data.Line rows pixel 4 → data.Line rows pixel' 4 →
      ∀ byte ∈ Vga.moves (copylineWith swap64Line data pixel 0 4),
        ∀ byte' ∈ Vga.moves (copylineWith swap64Line data pixel' 0 4), byte.2 ≠ byte'.2

def InLines (data : VgaFuncData) (rows : Nat) (x y width height : UInt32) : Prop :=
  ∀ yy < height.toNat,
    let start := data.lineStart (u32 (x.toNat + xOffset data.tiledOff)) (u32 (y.toNat + yOffset data.tiledOff)) yy
    data.Line rows start (4 * width.toNat) ∧ start + 4 * width.toNat ≤ data.vramMappedLen

def SamePixels (data : VgaFuncData) (rows : Nat) : Prop :=
  ∀ dir type stride x y width height, dir ≠ .other → data.InLines rows x y width height →
    (Vga.moves (data.vgaIntelTransferImage dir type stride width height x y).2).map Prod.snd =
      (Vga.moves (data.vgaIntelFillRect type x y width height).2).map Prod.snd

theorem Plain.splits (plain : data.Plain rows) (narrow : data.tiled = false ∨ data.stride ≤ 4096)
    (swap64Line : Nat) : data.Splits swap64Line rows where
  pieces := fun offset buf pieces line => by
    rw [plain.moves_copylines narrow swap64Line pieces offset buf line.inside,
      plain.moves narrow swap64Line buf line.inside]
  apart := fun pixel pixel' aligned aligned' different line line' byte member byte' member' same => by
    rw [plain.moves narrow swap64Line 0 line.inside] at member
    rw [plain.moves narrow swap64Line 0 line'.inside] at member'
    obtain ⟨k, below, rfl⟩ := mem_map.mp member
    obtain ⟨k', below', rfl⟩ := mem_map.mp member'
    rw [mem_range] at below below'
    have place : data.vramOff + pixel + k = data.vramOff + pixel' + k' := by
      dsimp only [address] at same
      split at same
      · exact tiledAddress_inj plain.whole plain.positive same
      · exact same
    omega

theorem range_pixels (place : Nat → Nat) (w : Nat) :
    (range (4 * w)).map place = (range w).flatMap fun i => (range 4).map fun k => place (4 * i + k) := by
  induction w with
  | zero => rfl
  | succ w ih =>
    rw [Nat.mul_succ, range_add, map_append, ih, @range_succ w, flatMap_append, flatMap_singleton, map_map]
    rfl

theorem Plain.pixels (plain : data.Plain rows) (narrow : data.tiled = false ∨ data.stride ≤ 4096) (buf : Nat) {w : Nat}
    (inside : data.Inside rows offset (4 * w)) :
    (Vga.moves (data.copyline offset buf (4 * w))).map Prod.snd =
      (VgaFuncData.pixels offset (offset + 4 * w)).flatMap fun pixel =>
        (Vga.moves (data.copyline pixel 0 4)).map Prod.snd := by
  have count : (offset + 4 * w - offset + 3) / 4 = w := by omega
  rw [copyline_eq, ← copylineWith, plain.moves narrow _ buf inside, movesTo_snd, range_pixels, VgaFuncData.pixels, count,
    flatMap_map]
  refine flatMap_congr fun i member => ?_
  have below := mem_range.mp member
  have split : 4 * w = 4 * i + (4 + (4 * w - 4 * i - 4)) := by omega
  rw [split] at inside
  rw [copyline_eq, ← copylineWith, plain.moves narrow _ 0 (inside.rest plain.positive).first, movesTo_snd]
  simp only [Nat.add_assoc]

theorem Plain.samePixels (plain : data.Plain rows) (narrow : data.tiled = false ∨ data.stride ≤ 4096) :
    data.SamePixels rows := by
  intro dir type stride x y width height known inLines
  unfold vgaIntelTransferImage vgaIntelFillRect
  split
  · rfl
  · split
    · rfl
    · dsimp only [InLines] at inLines
      generalize u32 (x.toNat + xOffset data.tiledOff) = x', u32 (y.toNat + yOffset data.tiledOff) = y' at *
      have stop (yy : Nat) (below : yy < height.toNat) :
          data.lineStop (data.lineStart x' y' yy) width = data.lineStart x' y' yy + 4 * width.toNat := by
        have one : 1 ≤ (rows + 7) / 8 := by
          have lines := plain.lines
          omega
        have least := Nat.mul_le_mul_right (8 * data.stride) one
        have small := plain.small
        have within := (inLines yy below).1.within
        unfold lineStop
        rw [u32_of_lt (by omega), Nat.mul_comm]
        exact Nat.min_eq_left (inLines yy below).2
      rw [if_neg fun both => known both.1]
      dsimp only
      rw [moves_flatMap, moves_flatMap]
      rcases Nat.eq_zero_or_pos width.toNat with empty | wide
      · rw [filter_eq_nil_iff.mpr fun yy member => by
          have same := stop yy (mem_range.mp member)
          simp only [decide_eq_true_eq]
          omega]
        refine (flatMap_eq_nil_iff.mpr fun yy member => ?_).symm
        rw [stop yy (mem_range.mp member), empty, VgaFuncData.pixels, Nat.add_sub_cancel_left]
        rfl
      · rw [filter_eq_self.mpr fun yy member => by
          have same := stop yy (mem_range.mp member)
          simp only [decide_eq_true_eq]
          omega]
        refine flatMap_congr fun yy member => ?_
        have below := mem_range.mp member
        rw [stop yy below, Nat.add_sub_cancel_left, plain.pixels narrow _ (inLines yy below).1.inside, moves_flatMap]

theorem Plain.narrow_of_splits (plain : data.Plain rows) (splits : data.Splits swap64Line rows) :
    data.tiled = false ∨ data.stride ≤ 4096 := by
  by_contra! wide
  obtain ⟨tiled, wide⟩ := wide
  rw [Bool.ne_false_iff] at tiled
  have offset := plain.offset
  have line : data.Line rows 0 [4096 - data.vramOff, 1].sum := by
    refine ⟨?_, ?_⟩
    · rw [Nat.add_zero, Nat.div_eq_of_lt (by omega)]
      exact plain.lines
    · rw [Nat.add_zero, Nat.mod_eq_of_lt (by omega), sum_cons, sum_singleton]
      have whole := plain.whole
      omega
  have same := splits.pieces 0 0 _ line
  have inside := line.inside
  rw [sum_cons, sum_singleton] at same inside
  simp only [copylines] at same
  rw [moves_append, moves_append, plain.moves_tiled tiled _ _ inside, movesTo_append,
    plain.moves_tiled tiled _ _ inside.first, plain.moves_tiled tiled _ _ (inside.rest plain.positive)] at same
  have none' : Vga.moves [] = [] := rfl
  rw [none', append_nil] at same
  have last := append_inj_right same (by rw [movesTo_length])
  have place : data.vramOff + (0 + (4096 - data.vramOff)) = 4096 := by omega
  have start : data.column 0 = data.vramOff := Nat.mod_eq_of_lt (by omega)
  have row : data.row 0 = 0 := Nat.div_eq_of_lt (by omega)
  rw [movesTo_inj] at last
  unfold column at *
  unfold VgaFuncData.row at *
  have tiles := congrArg (· / 512) (last 0 Nat.one_pos)
  unfold tileAddress at tiles
  rw [row, place, Nat.div_eq_of_lt wide, Nat.mod_eq_of_lt wide, start, Nat.mod_eq_of_lt offset, swapped_div,
    swapped_div] at tiles
  omega

def lineCount (data : VgaFuncData) : Nat := (data.srcsize &&& 0xFFF) + 1 + yOffset data.tiledOff + 4096 / 512

theorem plain_of_ready {reg : Registers} {ab : Nat} (ready : Ready reg ab data) (fences : data.nfence = 0)
    (whole : data.stride % 512 = 0) : data.Plain data.lineCount where
  ready := ready.ready
  fences := fences
  fence0 := ready.fence0 fences
  offset := ready.vramOff ▸ Nat.mod_lt _ (by decide)
  positive := Nat.pos_of_ne_zero (ready.stride.symm ▸ ready.stride_ne)
  whole := whole
  lines := Nat.succ_pos _
  small := by
    have short : data.stride ≤ 0xFFC0 := ready.stride.symm ▸ strideOf_le reg ab
    have height : data.srcsize &&& 0xFFF ≤ 0xFFF := Nat.and_le_right
    have top := yOffset_le data.tiledOff
    have groups : (data.lineCount + 7) / 8 ≤ 1025 := by
      unfold lineCount
      omega
    have bytes := Nat.mul_le_mul groups (Nat.mul_le_mul_left 8 short)
    omega

/-- A surface can be copied in pieces exactly if it has no tiles or short lines. -/
theorem splits_iff {data₀ : VgaFuncData} {reg : Registers} {regMapped vramMapped : Bool}
    (is_ready : vgaIntelIsReady data₀ reg regMapped vramMapped = (true, data)) (fences : data.nfence = 0)
    (whole : data.stride % 512 = 0) :
    ((∀ swap64Line, data.Splits swap64Line data.lineCount) ∧ data.SamePixels data.lineCount) ↔
      data.tiled = false ∨ data.stride ≤ 4096 := by
  obtain ⟨ab, -, ready⟩ := vgaIntelIsReady_ready is_ready
  have plain := plain_of_ready ready fences whole
  exact ⟨fun all => plain.narrow_of_splits (all.1 0), fun narrow => ⟨plain.splits narrow, plain.samePixels narrow⟩⟩

def tiledRegisters (stride : UInt32) : Registers := fun place =>
  if place = 0x70180 then 0x98000400 else if place = 0x70188 then stride else 0

def tiledSurface (stride : UInt32) : VgaFuncData := (vgaIntelIsReady sampleData (tiledRegisters stride) true true).2

theorem splits_sample : (∀ swap64Line, (tiledSurface 4096).Splits swap64Line (tiledSurface 4096).lineCount) ∧
    (tiledSurface 4096).SamePixels (tiledSurface 4096).lineCount :=
  (splits_iff (show vgaIntelIsReady sampleData (tiledRegisters 4096) true true = (true, tiledSurface 4096) from rfl)
    rfl rfl).mpr (.inr (by decide))

/-- Two pixels of a line of 1152, in one call and in two. -/
theorem splits_wide : vgaIntelIsReady sampleData (tiledRegisters 4608) true true = (true, tiledSurface 4608) ∧
    (tiledSurface 4608).nfence = 0 ∧ (tiledSurface 4608).stride = 4608 ∧
    (tiledSurface 4608).Line (tiledSurface 4608).lineCount 4092 8 ∧
    Vga.moves (copylines 0 (tiledSurface 4608) 4092 0 [4, 4]) ≠
      Vga.moves (copylineWith 0 (tiledSurface 4608) 4092 0 8) :=
  ⟨rfl, rfl, rfl, ⟨by decide, by decide⟩, by decide⟩

end VgaFuncData

end DisasVisor.Vga
