import DisasVisor.Vga.IntelOverruns

/-!
Which byte of the frame buffer each byte of a line goes to, with tiles and with a fence that undoes them.
-/

namespace DisasVisor.Vga

open List

/-- Where each byte of `buf` is in `vram`. -/
def Copy.moves (c : Copy) : List (Nat × Nat) := (range c.nbytes).map fun k => (c.buf + k, c.offset + k)

def moves (copies : List Copy) : List (Nat × Nat) := copies.flatMap Copy.moves

def movesTo (buf n : Nat) (place : Nat → Nat) : List (Nat × Nat) := (range n).map fun k => (buf + k, place k)

variable {buf m n off : Nat} {place place' : Nat → Nat} {swap64 : Bool} {swap64Line : Nat} {fences : List Fence}

theorem moves_append (first second : List Copy) : moves (first ++ second) = moves first ++ moves second :=
  flatMap_append

theorem moves_single (offset buf n : Nat) : moves [⟨offset, buf, n⟩] = movesTo buf n fun k => offset + k :=
  flatMap_singleton _ _

theorem movesTo_congr (same : ∀ k < n, place k = place' k) : movesTo buf n place = movesTo buf n place' :=
  map_congr_left fun k below => by rw [same k (mem_range.mp below)]

theorem movesTo_append (buf m n : Nat) (place : Nat → Nat) :
    movesTo buf (m + n) place = movesTo buf m place ++ movesTo (buf + m) n fun k => place (m + k) := by
  unfold movesTo
  rw [range_add, map_append, map_map]
  congr 1
  refine map_congr_left fun k _ => ?_
  rw [Function.comp_apply, Nat.add_assoc]

theorem movesTo_inj (buf n : Nat) (place place' : Nat → Nat) :
    movesTo buf n place = movesTo buf n place' ↔ ∀ k < n, place k = place' k := by
  refine ⟨fun same k below => ?_, movesTo_congr⟩
  exact congrArg Prod.snd (map_inj_left.mp same k (mem_range.mpr below))

def swapped (swap64 : Bool) (offset : Nat) : Nat := if swap64 then offset ^^^ 64 else offset

theorem xor_64 (x : Nat) : x ^^^ 64 = 64 * (x / 64 ^^^ 1) + x % 64 := by
  have high : (x ^^^ 64) / 64 = x / 64 ^^^ 64 / 64 := @Nat.xor_div_two_pow x 64 6
  have low : (x ^^^ 64) % 64 = x % 64 ^^^ 64 % 64 := @Nat.xor_mod_two_pow x 64 6
  rw [Nat.mod_self, Nat.xor_zero] at low
  rw [Nat.div_self (Nat.succ_pos 63)] at high
  omega

theorem moves_swapped {offset : Nat} (room : n ≤ 64 - offset % 64) :
    moves [⟨offset ^^^ 64, buf, n⟩] = movesTo buf n fun k => (offset + k) ^^^ 64 := by
  rw [moves_single]
  refine movesTo_congr fun k below => ?_
  have block : (offset + k) / 64 = offset / 64 := by omega
  have rest : (offset + k) % 64 = offset % 64 + k := by omega
  rw [xor_64, xor_64, block, rest, Nat.add_assoc]

theorem moves_swap64Copies (fuel : Nat) : ∀ offset buf n, n ≤ fuel →
    moves (swap64Copies fuel offset buf n (64 - offset % 64)) = movesTo buf n fun k => (offset + k) ^^^ 64 := by
  induction fuel with
  | zero =>
    intro offset buf n enough
    exact moves_swapped (by omega)
  | succ fuel ih =>
    intro offset buf n enough
    rw [swap64Copies]
    split
    · rename_i more
      obtain ⟨rest, whole⟩ := Nat.exists_eq_add_of_lt more
      have next := ih (offset + (64 - offset % 64)) (buf + (64 - offset % 64)) (n - (64 - offset % 64)) (by omega)
      have start : 64 - (offset + (64 - offset % 64)) % 64 = 64 := by omega
      have split : n = (64 - offset % 64) + (n - (64 - offset % 64)) := by omega
      rw [start] at next
      rw [← singleton_append, moves_append, next, moves_swapped (Nat.le_refl _), eq_comm]
      conv => lhs; rw [split]
      rw [movesTo_append]
      simp only [Nat.add_assoc]
    · exact moves_swapped (by omega)

theorem moves_copylineSub2 (offset buf n : Nat) (swap64 : Bool) :
    moves (copylineSub2 offset buf n swap64) = movesTo buf n fun k => swapped swap64 (offset + k) := by
  unfold copylineSub2 swapped
  split
  · exact moves_swap64Copies n offset buf n (Nat.le_refl n)
  · exact moves_single offset buf n

/-- The loop of `vga_intel_copyline`, for any `swap64_line`. -/
def tileCopies (swap64Line : Nat) (fences : List Fence) (swap64 : Bool) :
    Nat → Nat → Nat → Nat → Nat → Nat → List Copy
  | 0, off, off2, buf, nbytes, _ => copylineSub swap64 swap64Line fences (u32 (off + off2)) buf nbytes
  | fuel + 1, off, off2, buf, nbytes, len =>
    if nbytes > len then
      copylineSub swap64 swap64Line fences (u32 (off + off2)) buf len ++
        tileCopies swap64Line fences swap64 fuel 0 (off2 + 4096) (buf + len) (nbytes - len) 512
    else copylineSub swap64 swap64Line fences (u32 (off + off2)) buf nbytes

theorem tileLoop_eq (data : VgaFuncData) (swap64 : Bool) (fuel : Nat) : ∀ off off2 buf nbytes len,
    data.tileLoop swap64 fuel off off2 buf nbytes len =
      tileCopies data.swap64Line data.fences swap64 fuel off off2 buf nbytes len := by
  induction fuel with
  | zero => exact fun _ _ _ _ _ => rfl
  | succ fuel ih =>
    intro off off2 buf nbytes len
    rw [VgaFuncData.tileLoop, tileCopies, ih]

theorem moves_tileCopies {base limit : Nat} (part : ∀ tile b m buf, b + m ≤ 512 → tile * 512 + b + m ≤ limit →
      moves (copylineSub swap64 swap64Line fences (u32 (b + (base + tile * 4096))) buf m) =
        movesTo buf m fun k => place (tile * 512 + b + k)) (fuel : Nat) :
    ∀ tile off buf nbytes, off < 512 → nbytes ≤ fuel → tile * 512 + off + nbytes ≤ limit →
      moves (tileCopies swap64Line fences swap64 fuel off (base + tile * 4096) buf nbytes (512 - off)) =
        movesTo buf nbytes fun k => place (tile * 512 + off + k) := by
  induction fuel with
  | zero =>
    intro tile off buf nbytes inTile enough inLine
    exact part tile off nbytes buf (by omega) inLine
  | succ fuel ih =>
    intro tile off buf nbytes inTile enough inLine
    rw [tileCopies]
    split
    · rename_i more
      have next := ih (tile + 1) 0 (buf + (512 - off)) (nbytes - (512 - off)) (by decide) (by omega) (by
        rw [Nat.add_zero]
        omega)
      have behind : base + (tile + 1) * 4096 = base + tile * 4096 + 4096 := by omega
      have split : nbytes = (512 - off) + (nbytes - (512 - off)) := by omega
      rw [behind, Nat.sub_zero] at next
      rw [moves_append, next, part tile off (512 - off) buf (by omega) (by omega), eq_comm]
      conv => lhs; rw [split]
      have after (k : Nat) : tile * 512 + off + (512 - off + k) = (tile + 1) * 512 + 0 + k := by
        rw [Nat.add_zero]
        omega
      rw [movesTo_append]
      exact congrArg (movesTo buf (512 - off) _ ++ ·) (movesTo_congr fun k _ => congrArg place (after k))
    · exact part tile off nbytes buf (by omega) inLine

namespace VgaFuncData

variable {data : VgaFuncData} {offset nbytes rows : Nat}

/-- `vga_intel_copyline` of a tiled surface, where it is not on its fast path. -/
def slowPath (swap64Line : Nat) (data : VgaFuncData) (offset buf nbytes : Nat) : List Copy :=
  let off := data.vramOff + offset
  let n := off / data.stride
  let off2 := n / 8 * 8 * data.stride + ((off % data.stride) &&& 0xE00) * 8 + n % 8 * 512
  tileCopies swap64Line data.fences (swap64Line.testBit (n % 8)) nbytes (off % 512) off2 buf nbytes (512 - off % 512)

theorem copyline_eq (data : VgaFuncData) (offset buf nbytes : Nat) : data.copyline offset buf nbytes =
    if data.tiled then
      if data.fastPath (data.vramOff + offset + nbytes) then copylineSub2 (data.vramOff + offset) buf nbytes false
      else slowPath data.swap64Line data offset buf nbytes
    else copylineSub false data.swap64Line data.fences (u32 (data.vramOff + offset)) buf (u32 nbytes) := by
  unfold copyline slowPath
  dsimp only
  rw [tileLoop_eq]

structure Line (data : VgaFuncData) (rows offset nbytes : Nat) : Prop where
  row : (data.vramOff + offset) / data.stride < rows
  within : (data.vramOff + offset) % data.stride + nbytes ≤ data.stride

def row (data : VgaFuncData) (offset : Nat) : Nat := (data.vramOff + offset) / data.stride

def column (data : VgaFuncData) (offset : Nat) : Nat := (data.vramOff + offset) % data.stride

def rowBase (stride row : Nat) : Nat := row / 8 * (8 * stride) + row % 8 * 512

theorem moves_slowPath (swap64Line : Nat) (data : VgaFuncData) (offset buf nbytes : Nat)
    (whole : data.stride % 512 = 0) (line : data.column offset + nbytes ≤ data.stride)
    (part : ∀ tile b m buf, b + m ≤ 512 → tile * 512 + b + m ≤ data.stride →
      moves (copylineSub (swap64Line.testBit (data.row offset % 8)) swap64Line data.fences
          (u32 (b + (rowBase data.stride (data.row offset) + tile * 4096))) buf m) =
        movesTo buf m fun k => place (tile * 512 + b + k)) :
    moves (slowPath swap64Line data offset buf nbytes) =
      movesTo buf nbytes fun k => place (data.column offset % 4096 + k) := by
  unfold slowPath row column rowBase at *
  dsimp only
  generalize data.vramOff + offset = off at *
  have tile : off % 512 = off % data.stride % 512 := (Nat.mod_mod_of_dvd off (Nat.dvd_of_mod_eq_zero whole)).symm
  have first : off / data.stride / 8 * 8 * data.stride + (off % data.stride &&& 0xE00) * 8 +
      off / data.stride % 8 * 512 = off / data.stride / 8 * (8 * data.stride) + off / data.stride % 8 * 512 +
        off % data.stride / 512 % 8 * 4096 := by
    rw [and_tile, Nat.mul_assoc _ 8]
    omega
  rw [first, tile]
  generalize off % data.stride = c at *
  have moved := moves_tileCopies part nbytes (c / 512 % 8) (c % 512) buf nbytes (Nat.mod_lt _ (by decide))
    (Nat.le_refl _) (by omega)
  rw [moved]
  refine movesTo_congr fun k _ => congrArg place ?_
  omega

structure Covered (data : VgaFuncData) (rows : Nat) : Prop where
  tiled : data.tiled = true
  one : data.nfence = 1
  start : (data.fence 0).start = 0
  pitch : (data.fence 0).pitch = data.stride
  covers : (rows + 7) / 8 * (8 * data.stride) ≤ (data.fence 0).stop
  small : (data.fence 0).stop < 2 ^ 32
  positive : 0 < data.stride
  whole : data.stride % 512 = 0

theorem copylineSub_none (swap64 : Bool) (swap64Line : Nat) (f : Fence) (off buf : Nat) :
    copylineSub swap64 swap64Line [f] off buf 0 = [] := by
  simp only [copylineSub]
  split
  · rfl
  · split
    · rfl
    · rfl

theorem Covered.part (covered : data.Covered rows) {row : Nat} (inRows : row < rows) (swap64Line tile b m buf : Nat)
    (inTile : b + m ≤ 512) (inLine : tile * 512 + b + m ≤ data.stride) :
    moves (copylineSub (swap64Line.testBit (row % 8)) swap64Line data.fences
        (u32 (b + (rowBase data.stride row + tile * 4096))) buf m) =
      movesTo buf m fun k => row * data.stride + (tile * 512 + b + k) := by
  have fences : data.fences = [data.fence 0] := by
    unfold VgaFuncData.fences
    rw [covered.one]
    rfl
  obtain ⟨-, -, start, pitch, covers, small, positive, whole⟩ := covered
  rw [fences]
  generalize data.fence 0 = f at *
  cases m with
  | zero => rw [copylineSub_none]; rfl
  | succ m =>
    obtain ⟨s, same⟩ := Nat.dvd_of_mod_eq_zero whole
    rw [same] at pitch covers inLine ⊢
    have top : row / 8 * (8 * (512 * s)) + 8 * (512 * s) ≤ (rows + 7) / 8 * (8 * (512 * s)) := by
      rw [← Nat.succ_mul]
      exact Nat.mul_le_mul_right _ (by omega)
    have inRow : tile * 4096 + row % 8 * 512 + b < 8 * (512 * s) := by omega
    have place : b + (rowBase (512 * s) row + tile * 4096) =
        8 * (512 * s) * (row / 8) + (tile * 4096 + row % 8 * 512 + b) := by
      unfold rowBase
      rw [Nat.mul_comm (row / 8)]
      omega
    have fits : b + (rowBase (512 * s) row + tile * 4096) + (m + 1) ≤ f.stop := by
      rw [place, Nat.mul_comm _ (row / 8)]
      omega
    have width : f.pitch * 8 = 8 * (512 * s) := by rw [pitch, Nat.mul_comm]
    have y : (b + (rowBase (512 * s) row + tile * 4096)) % (8 * (512 * s)) = tile * 4096 + row % 8 * 512 + b := by
      rw [place, Nat.mul_add_mod, Nat.mod_eq_of_lt inRow]
    have lines : row * (512 * s) = 8 * (512 * s) * (row / 8) + 512 * s * (row % 8) := by
      calc row * (512 * s) = (8 * (row / 8) + row % 8) * (512 * s) := by rw [Nat.div_add_mod]
        _ = _ := by ring
    have low : (b + (rowBase (512 * s) row + tile * 4096)) % 512 = b := by
      rw [place, Nat.mul_assoc 8 (512 * s), Nat.mul_left_comm, Nat.mul_assoc]
      omega
    have number : (tile * 4096 + row % 8 * 512 + b) % 4096 / 512 = row % 8 := by omega
    have before : (tile * 4096 + row % 8 * 512 + b) / 4096 = tile := by omega
    rw [u32_of_lt (by omega)]
    generalize b + (rowBase (512 * s) row + tile * 4096) = T at *
    have off : T - (tile * 4096 + row % 8 * 512 + b) + tile * 512 + 512 * s * (row % 8) + b =
        row * (512 * s) + (tile * 512 + b) := by
      rw [lines]
      omega
    have rest : (row * (512 * s) + (tile * 512 + b)) % 512 = b := by
      rw [Nat.mul_left_comm]
      omega
    have len : min (512 - b) (f.stop - T) ≠ 0 := by omega
    have all : min (min (512 - b) (f.stop - T)) (m + 1) = m + 1 := by omega
    have self (bit : Bool) : (bit ^^ bit) = false := Bool.xor_self bit
    have loop : fenceLoop f (swap64Line.testBit (row % 8)) swap64Line (m + 1) T buf (m + 1) (T % (f.pitch * 8)) =
        (copylineSub2 (row * (512 * s) + (tile * 512 + b)) buf (m + 1) false, ⟨T, buf, 0⟩) := by
      rw [fenceLoop]
      dsimp only
      rw [width, y, number, before, pitch, low, off, rest, if_neg len, all, self, if_pos (Nat.sub_self _)]
    simp only [copylineSub]
    rw [start, if_neg (by rw [u32_of_lt (by omega)]; omega), if_neg (by omega), loop, if_pos rfl, moves_copylineSub2]
    exact movesTo_congr fun k _ => Nat.add_assoc _ _ _

/-- The slow path moves the bytes that the fast path moves, exactly from the first 4096 bytes of a line on. -/
theorem slowPath_iff (swap64Line buf : Nat) (covered : data.Covered rows) (line : data.Line rows offset nbytes) :
    moves (slowPath swap64Line data offset buf nbytes) =
        moves (copylineSub2 (data.vramOff + offset) buf nbytes false) ↔
      nbytes = 0 ∨ (data.vramOff + offset) % data.stride < 4096 := by
  rw [moves_slowPath swap64Line data offset buf nbytes covered.whole line.within
    (covered.part line.row swap64Line), moves_copylineSub2, movesTo_inj]
  have parts := Nat.div_add_mod (data.vramOff + offset) data.stride
  unfold row column swapped at *
  rw [Nat.mul_comm] at parts
  constructor
  · intro same
    by_contra neither
    have first := same 0 (by omega)
    simp only [Bool.false_eq_true, if_false] at first
    omega
  · intro either k below
    simp only [Bool.false_eq_true, if_false]
    omega

def tiledData (stride : Nat) : VgaFuncData :=
  { sampleData with
    stride, tiled := true, nfence := 1, fence := fun _ => ⟨0, 8 * stride, stride⟩, fence0 := some 0, ready := true }

theorem tiledData_covered {stride : Nat} (positive : 0 < stride) (small : 8 * stride < 2 ^ 32)
    (whole : stride % 512 = 0) : (tiledData stride).Covered 8 where
  tiled := rfl
  one := rfl
  start := rfl
  pitch := rfl
  covers := (Nat.one_mul (8 * stride)).le
  small := small
  positive := positive
  whole := whole

/-- 300 bytes of a line of 1024, which are in two tiles. -/
theorem slowPath_sample : moves (slowPath 0x96 (tiledData 1024) 600 0 300) =
    moves (copylineSub2 ((tiledData 1024).vramOff + 600) 0 300 false) :=
  (slowPath_iff 0x96 0 (tiledData_covered (by decide) (by decide) (by decide))
    (show (tiledData 1024).Line 8 600 300 from ⟨by decide, by decide⟩)).mpr (.inr (by decide))

/-- The pixel 1024 of a line of 1152 goes to the beginning of the line. -/
theorem slowPath_wide : (tiledData 4608).Covered 8 ∧ (tiledData 4608).Line 8 4096 4 ∧
    moves (slowPath 0 (tiledData 4608) 4096 0 4) ≠ moves (copylineSub2 ((tiledData 4608).vramOff + 4096) 0 4 false) :=
  ⟨tiledData_covered (by decide) (by decide) (by decide), ⟨by decide, by decide⟩, by decide⟩

end VgaFuncData

end DisasVisor.Vga
