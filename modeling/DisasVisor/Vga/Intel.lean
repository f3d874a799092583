import Mathlib.Data.List.Range
import Mathlib.Algebra.Group.Nat.Defs

/-!
The frame buffer of `drivers/vga_intel.c`, built with `USE_64BIT`: what `vga_intel_is_ready` makes of the
registers, and the copies that a transfer makes between an image and the mapped memory.
-/

namespace DisasVisor.Vga

def u32 (x : Nat) : Nat := x % 2 ^ 32

structure Fence where
  start : Nat
  stop : Nat
  pitch : Nat

def swap64LineOf (deviceId : Nat) : Nat :=
  if deviceId = 0x2A42 then 0x96
  else if deviceId = 0x0126 then 0x66
  else if deviceId = 0x0046 then 0x66
  else 0

structure VgaFuncData where
  regLen : UInt32
  vramLen : UInt32
  deviceId : Nat
  vramMappedLen : Nat
  stride : Nat
  srcsize : Nat
  vramOff : Nat
  tiledOff : Nat
  tiled : Bool
  nfence : Nat
  fence : Nat → Fence
  fence0 : Option Nat
  ready : Bool

abbrev Registers := Nat → UInt32

structure Copy where
  offset : Nat
  buf : Nat
  nbytes : Nat
  deriving DecidableEq

def maxNfence : Nat := 16

def readFence1 (reg : Registers) (offset off : Nat) (data : VgaFuncData) (i : Nat) : Option VgaFuncData :=
  let fencel := (reg (offset + 8 * i)).toNat
  let fenceh := (reg (offset + 8 * i + 4)).toNat
  if fencel &&& 0x1 = 0 then some data
  else if data.nfence ≥ maxNfence then none
  else
    let lowerBound := fencel &&& 0xFFFFF000
    let pitch := ((fenceh &&& 0x3FF) + 1) * 128
    let upperBound := fenceh &&& 0xFFFFF000
    if lowerBound ≥ off + data.vramMappedLen then some data
    else
      let start := if lowerBound ≤ off then u32 (lowerBound + 2 ^ 32 - off)
        else (data.fence data.nfence).start
      some { data with
        fence := Function.update data.fence data.nfence
          ⟨start, u32 (upperBound + 2 ^ 32 - off + 1), pitch⟩
        fence0 := if start = 0 then some data.nfence else data.fence0
        nfence := data.nfence + 1 }

def vgaIntelReadFence (data : VgaFuncData) (reg : Registers) (offset off : Nat) : Option VgaFuncData :=
  if data.regLen.toNat < offset + 16 * 8 then some data
  else (List.range 16).foldlM (readFence1 reg offset off) data

def enabledPlane (reg : Registers) : Option Nat :=
  [0x0, 0x1000, 0x2000].find? fun ab => (reg (0x70180 + ab)).toNat &&& 0x80000000 ≠ 0

def strideOf (reg : Registers) (ab : Nat) : Nat := (reg (0x70188 + ab)).toNat &&& 0xFFC0

def surface (reg : Registers) (ab : Nat) : Nat :=
  let tileOffset := (reg (0x701A4 + ab)).toNat
  let off := if (reg (0x70180 + ab)).toNat &&& 0x400 ≠ 0 then
      ((tileOffset >>> 16) &&& 0xFFF) * strideOf reg ab + (tileOffset &&& 0x3FF)
    else (reg (0x70184 + ab)).toNat
  u32 (off + (reg (0x7019C + ab)).toNat)

def xOffset (tiledOff : Nat) : Nat := tiledOff &&& 0xFFF

def yOffset (tiledOff : Nat) : Nat := (tiledOff &&& 0xFFF0000) >>> 16

def mappedLen (vramLen off vramOff srcsize tiledOff stride : Nat) : Nat :=
  min (vramOff + (((srcsize &&& 0xFFF) + 1 + yOffset tiledOff) * stride + xOffset tiledOff) * 4)
    (u32 (vramLen + 2 ^ 32 - off))

def vgaIntelIsReady (data : VgaFuncData) (reg : Registers) (regMapped vramMapped : Bool) : Bool × VgaFuncData :=
  let data := { data with ready := false }
  if data.regLen.toNat < 0x80000 then (false, data)
  else if !regMapped then (false, data)
  else
    match enabledPlane reg with
    | none => (false, data)
    | some ab =>
      if (reg (0x70180 + ab)).toNat &&& 0x3C000000 ≠ 0x18000000 then (false, data)
      else if strideOf reg ab = 0 then (false, data)
      else
        let srcsize := (reg (0x6001C + ab)).toNat
        let tiled : Bool := (reg (0x70180 + ab)).toNat &&& 0x400 ≠ 0
        let tiledOff := if tiled then (reg (0x701A4 + ab)).toNat else 0
        let vramOff := surface reg ab % 4096
        let off := surface reg ab - vramOff
        let data := { data with
          stride := strideOf reg ab, srcsize, tiled, tiledOff, vramOff
          vramMappedLen := mappedLen data.vramLen.toNat off vramOff srcsize tiledOff (strideOf reg ab) }
        if !vramMapped then (false, data)
        else
          match vgaIntelReadFence { data with nfence := 0, fence0 := none } reg 0x100000 off with
          | none => (false, data)
          | some data => (true, { data with ready := true })

/-- The rest of the loop over blocks of 64 bytes, of which `len` are left in the first one. -/
def swap64Copies : Nat → Nat → Nat → Nat → Nat → List Copy
  | 0, offset, buf, nbytes, _ => [⟨offset ^^^ 64, buf, nbytes⟩]
  | fuel + 1, offset, buf, nbytes, len =>
    if nbytes > len then
      ⟨offset ^^^ 64, buf, len⟩ :: swap64Copies fuel (offset + len) (buf + len) (nbytes - len) 64
    else [⟨offset ^^^ 64, buf, nbytes⟩]

def copylineSub2 (offset buf nbytes : Nat) (swap64 : Bool) : List Copy :=
  if swap64 then swap64Copies nbytes offset buf nbytes (64 - offset % 64)
  else [⟨offset, buf, nbytes⟩]

structure Left where
  offset : Nat
  buf : Nat
  nbytes : Nat

def fenceLoop (f : Fence) (swap64 : Bool) (swap64Line : Nat) :
    Nat → Nat → Nat → Nat → Nat → List Copy × Left
  | 0, offset, buf, nbytes, _ => ([], ⟨offset, buf, nbytes⟩)
  | fuel + 1, offset, buf, nbytes, y =>
    let n := y % 4096 / 512
    let off := offset - y + y / 4096 * 512 + f.pitch * n + offset % 512
    let len := min (512 - off % 512) (f.stop - offset)
    if len = 0 then ([], ⟨offset, buf, nbytes⟩)
    else
      let len := min len nbytes
      let copies := copylineSub2 off buf len (swap64 ^^ swap64Line.testBit n)
      if nbytes - len = 0 then (copies, ⟨offset, buf, 0⟩)
      else
        let y := if y + len ≥ f.pitch * 8 then y + len - f.pitch * 8 else y + len
        let rest := fenceLoop f swap64 swap64Line fuel (offset + len) (buf + len) (nbytes - len) y
        (copies ++ rest.1, rest.2)

def copylineSub (swap64 : Bool) (swap64Line : Nat) : List Fence → Nat → Nat → Nat → List Copy
  | [], offset, buf, nbytes => if nbytes > 0 then copylineSub2 offset buf nbytes swap64 else []
  | f :: rest, offset, buf, nbytes =>
    if f.start ≥ u32 (offset + nbytes) then copylineSub swap64 swap64Line rest offset buf nbytes
    else if f.stop ≤ offset then copylineSub swap64 swap64Line rest offset buf nbytes
    else
      let looped := fenceLoop f swap64 swap64Line nbytes offset buf nbytes (offset % (f.pitch * 8))
      if looped.2.nbytes = 0 then looped.1
      else looped.1 ++ copylineSub swap64 swap64Line rest looped.2.offset looped.2.buf looped.2.nbytes

namespace VgaFuncData

variable (data : VgaFuncData)

def fences : List Fence := (List.range data.nfence).reverse.map data.fence

def swap64Line : Nat := swap64LineOf data.deviceId

def tileLoop (swap64 : Bool) : Nat → Nat → Nat → Nat → Nat → Nat → List Copy
  | 0, off, off2, buf, nbytes, _ => copylineSub swap64 data.swap64Line data.fences (u32 (off + off2)) buf nbytes
  | fuel + 1, off, off2, buf, nbytes, len =>
    if nbytes > len then
      copylineSub swap64 data.swap64Line data.fences (u32 (off + off2)) buf len ++
        tileLoop swap64 fuel 0 (off2 + 4096) (buf + len) (nbytes - len) 512
    else copylineSub swap64 data.swap64Line data.fences (u32 (off + off2)) buf nbytes

def fastPath (stop : Nat) : Bool :=
  match data.fence0 with
  | none => false
  | some i => stop ≤ (data.fence i).stop ∧ (data.fence i).pitch = data.stride

def copyline (offset buf nbytes : Nat) : List Copy :=
  let off := data.vramOff + offset
  if data.tiled then
    if data.fastPath (off + nbytes) then copylineSub2 off buf nbytes false
    else
      let n := off / data.stride
      let off2 := n / 8 * 8 * data.stride + ((off % data.stride) &&& 0xE00) * 8 + n % 8 * 512
      data.tileLoop (data.swap64Line.testBit (n % 8)) nbytes (off % 512) off2 buf nbytes (512 - off % 512)
  else copylineSub false data.swap64Line data.fences (u32 off) buf (u32 nbytes)

end VgaFuncData

inductive VgaFuncTransferDir
  | put
  | get
  | other
  deriving DecidableEq

inductive VgaFuncImageType
  | bgrx8888
  | other
  deriving DecidableEq

namespace VgaFuncData

variable (data : VgaFuncData)

def lineStart (x y yy : Nat) : Nat := u32 (u32 (y + yy) * data.stride + x * 4)

def lineStop (tmp1 : Nat) (width : UInt32) : Nat := min (tmp1 + u32 (width.toNat * 4)) data.vramMappedLen

def vgaIntelTransferImage (dir : VgaFuncTransferDir) (type : VgaFuncImageType)
    (stride width lines x y : UInt32) : Bool × List Copy :=
  if !data.ready then (false, [])
  else if type ≠ .bgrx8888 then (false, [])
  else
    let x := u32 (x.toNat + xOffset data.tiledOff)
    let y := u32 (y.toNat + yOffset data.tiledOff)
    let filled := (List.range lines.toNat).filter fun yy =>
      ¬data.lineStop (data.lineStart x y yy) width ≤ data.lineStart x y yy
    if dir = .other ∧ filled ≠ [] then (false, [])
    else
      (true, filled.flatMap fun yy =>
        let tmp1 := data.lineStart x y yy
        data.copyline tmp1 (u32 (stride.toNat * yy)) (data.lineStop tmp1 width - tmp1))

def pixels (tmp1 tmp2 : Nat) : List Nat := (List.range ((tmp2 - tmp1 + 3) / 4)).map fun i => tmp1 + 4 * i

def vgaIntelFillRect (type : VgaFuncImageType) (x y width height : UInt32) : Bool × List Copy :=
  if !data.ready then (false, [])
  else if type ≠ .bgrx8888 then (false, [])
  else
    let x := u32 (x.toNat + xOffset data.tiledOff)
    let y := u32 (y.toNat + yOffset data.tiledOff)
    (true, (List.range height.toNat).flatMap fun yy =>
      let tmp1 := data.lineStart x y yy
      (pixels tmp1 (data.lineStop tmp1 width)).flatMap fun tmp1 => data.copyline tmp1 0 4)

end VgaFuncData

/-!
Which states of the frame buffer keep every copy inside of the mapped memory.
-/

open List

theorem u32_of_lt {x : Nat} (small : x < 2 ^ 32) : u32 x = x := Nat.mod_eq_of_lt small

theorem xOffset_le (tiledOff : Nat) : xOffset tiledOff ≤ 4095 := Nat.and_le_right

theorem yOffset_le (tiledOff : Nat) : yOffset tiledOff ≤ 4095 := by
  unfold yOffset
  rw [Nat.shiftRight_eq_div_pow]
  have masked : tiledOff &&& 0xFFF0000 ≤ 0xFFF0000 := Nat.and_le_right
  omega

theorem strideOf_le (reg : Registers) (ab : Nat) : strideOf reg ab ≤ 0xFFC0 := Nat.and_le_right

theorem strideOf_mod (reg : Registers) (ab : Nat) : strideOf reg ab % 64 = 0 := by
  have masked : ((reg (0x70188 + ab)).toNat &&& 0xFFC0) % 2 ^ 6 =
      (reg (0x70188 + ab)).toNat % 2 ^ 6 &&& 0xFFC0 % 2 ^ 6 := Nat.and_mod_two_pow
  unfold strideOf
  simpa using masked

variable {off offset buf nbytes len tmp1 : Nat} {e : VgaFuncData}

theorem mappedLen_lt {vramLen vramOff srcsize tiledOff stride : Nat} (page : vramOff < 4096) (short : stride ≤ 0xFFC0) :
    mappedLen vramLen off vramOff srcsize tiledOff stride < 2 ^ 31 := by
  have rows : (srcsize &&& 0xFFF) + 1 + yOffset tiledOff ≤ 8191 := by
    have height : srcsize &&& 0xFFF ≤ 0xFFF := Nat.and_le_right
    have top := yOffset_le tiledOff
    omega
  have bytes := Nat.mul_le_mul rows short
  have left := xOffset_le tiledOff
  have chosen : mappedLen vramLen off vramOff srcsize tiledOff stride ≤
      vramOff + (((srcsize &&& 0xFFF) + 1 + yOffset tiledOff) * stride + xOffset tiledOff) * 4 :=
    Nat.min_le_left _ _
  omega

theorem mappedLen_inside {vramLen vramOff srcsize tiledOff stride : Nat} (aperture : vramLen < 2 ^ 32)
    (address : off < 2 ^ 32) :
    off + mappedLen vramLen off vramOff srcsize tiledOff stride ≤ vramLen ↔ off ≤ vramLen := by
  constructor
  · omega
  · intro below
    have chosen : mappedLen vramLen off vramOff srcsize tiledOff stride ≤
        u32 (vramLen + 2 ^ 32 - off) := Nat.min_le_right _ _
    unfold u32 at chosen
    omega

structure Ready (reg : Registers) (ab : Nat) (data : VgaFuncData) : Prop where
  ready : data.ready = true
  stride : data.stride = strideOf reg ab
  stride_ne : strideOf reg ab ≠ 0
  vramOff : data.vramOff = surface reg ab % 4096
  mappedLen : data.vramMappedLen = mappedLen data.vramLen.toNat (surface reg ab - surface reg ab % 4096)
    data.vramOff data.srcsize data.tiledOff data.stride
  fence0 : data.nfence = 0 → data.fence0 = none

structure SameSurface (d e : VgaFuncData) : Prop where
  vramLen : e.vramLen = d.vramLen
  stride : e.stride = d.stride
  srcsize : e.srcsize = d.srcsize
  vramOff : e.vramOff = d.vramOff
  tiledOff : e.tiledOff = d.tiledOff
  vramMappedLen : e.vramMappedLen = d.vramMappedLen
  fence0 : (d.nfence = 0 → d.fence0 = none) → e.nfence = 0 → e.fence0 = none

theorem SameSurface.refl (d : VgaFuncData) : SameSurface d d := ⟨rfl, rfl, rfl, rfl, rfl, rfl, id⟩

theorem SameSurface.trans {d f : VgaFuncData} (first : SameSurface d e) (next : SameSurface e f) :
    SameSurface d f where
  vramLen := next.vramLen.trans first.vramLen
  stride := next.stride.trans first.stride
  srcsize := next.srcsize.trans first.srcsize
  vramOff := next.vramOff.trans first.vramOff
  tiledOff := next.tiledOff.trans first.tiledOff
  vramMappedLen := next.vramMappedLen.trans first.vramMappedLen
  fence0 := next.fence0 ∘ first.fence0

theorem readFence1_same {reg : Registers} {i : Nat} {d : VgaFuncData} (read : readFence1 reg offset off d i = some e) :
    SameSurface d e := by
  unfold readFence1 at read
  dsimp only at read
  split at read
  · rw [← Option.some.inj read]
    exact .refl d
  · split at read
    · exact absurd read (by simp)
    · split at read
      · rw [← Option.some.inj read]
        exact .refl d
      · rw [← Option.some.inj read]
        exact ⟨rfl, rfl, rfl, rfl, rfl, rfl, fun _ none' => absurd none' (Nat.succ_ne_zero _)⟩

theorem readFences_same {reg : Registers} (numbers : List Nat) {d : VgaFuncData}
    (read : numbers.foldlM (readFence1 reg offset off) d = some e) : SameSurface d e := by
  induction numbers generalizing d with
  | nil =>
    rw [← Option.some.inj read]
    exact .refl d
  | cons i rest ih =>
    rw [foldlM_cons, Option.bind_eq_bind, Option.bind_eq_some_iff] at read
    obtain ⟨next, first, later⟩ := read
    exact (readFence1_same first).trans (ih later)

theorem vgaIntelReadFence_same {reg : Registers} {d : VgaFuncData}
    (read : vgaIntelReadFence d reg offset off = some e) : SameSurface d e := by
  unfold vgaIntelReadFence at read
  split at read
  · rw [← Option.some.inj read]
    exact .refl d
  · exact readFences_same _ read

theorem vgaIntelIsReady_ready {data d : VgaFuncData} {reg : Registers} {regMapped vramMapped : Bool}
    (is_ready : vgaIntelIsReady data reg regMapped vramMapped = (true, d)) :
    ∃ ab, enabledPlane reg = some ab ∧ Ready reg ab d := by
  unfold vgaIntelIsReady at is_ready
  dsimp only at is_ready
  split at is_ready
  · cases is_ready
  · split at is_ready
    · cases is_ready
    · split at is_ready
      · cases is_ready
      · rename_i ab plane
        split at is_ready
        · cases is_ready
        · split at is_ready
          · cases is_ready
          · rename_i nonzero
            split at is_ready
            · cases is_ready
            · split at is_ready
              · cases is_ready
              · rename_i read
                have same := vgaIntelReadFence_same read
                have final := (Prod.mk.inj is_ready).2
                refine ⟨ab, plane, ?_⟩
                rw [← final]
                refine ⟨rfl, same.stride, nonzero, same.vramOff, ?_, same.fence0 fun _ => rfl⟩
                rw [same.vramMappedLen, same.vramLen, same.vramOff, same.srcsize, same.tiledOff, same.stride]

def Copy.Below (c : Copy) (len : Nat) : Prop := ∀ i < c.nbytes, c.offset + i < len

def Below (copies : List Copy) (len : Nat) : Prop := ∀ copy ∈ copies, copy.Below len

namespace VgaFuncData

variable {d : VgaFuncData} {reg : Registers} {ab : Nat}

def Within (d : VgaFuncData) (reg : Registers) (ab : Nat) : Prop :=
  surface reg ab - surface reg ab % 4096 + d.vramMappedLen ≤ d.vramLen.toNat ∧
    (∀ dir type stride width lines x y,
      Below (d.vgaIntelTransferImage dir type stride width lines x y).2 d.vramMappedLen) ∧
    ∀ type x y width height, Below (d.vgaIntelFillRect type x y width height).2 d.vramMappedLen

def Unfenced (d : VgaFuncData) : Prop := ∀ f ∈ d.fences, d.vramMappedLen ≤ f.start ∨ f.stop = 0

/-- The bytes of the surface are copied where they are: it starts at a page, and neither tiles nor fences
move them. -/
def Straight (d : VgaFuncData) : Prop :=
  d.vramOff = 0 ∧ d.vramMappedLen % 4 = 0 ∧
    if d.tiled then
      d.fastPath d.vramMappedLen = true ∨ d.Unfenced ∧ d.vramMappedLen ≤ 512 ∧ d.vramMappedLen ≤ d.stride
    else d.Unfenced

def Meets (d : VgaFuncData) (reg : Registers) (ab : Nat) : Prop :=
  surface reg ab - surface reg ab % 4096 ≤ d.vramLen.toNat ∧ (d.vramMappedLen = 0 ∨ d.Straight)

end VgaFuncData

theorem copylineSub_unfenced {swap64Line : Nat} (fences : List Fence)
    (unfenced : ∀ f ∈ fences, len ≤ f.start ∨ f.stop = 0) (some' : 0 < nbytes) (inside : offset + nbytes ≤ len)
    (small : len < 2 ^ 32) : copylineSub false swap64Line fences offset buf nbytes = [⟨offset, buf, nbytes⟩] := by
  induction fences with
  | nil => simp [copylineSub, copylineSub2, some']
  | cons f rest ih =>
    have later := ih fun f member => unfenced f (mem_cons_of_mem _ member)
    have sum := u32_of_lt (Nat.lt_of_le_of_lt inside small)
    unfold copylineSub
    rw [sum]
    split
    · exact later
    · rename_i low
      split
      · exact later
      · rename_i high
        rcases unfenced f mem_cons_self with beyond | empty
        · omega
        · omega

namespace VgaFuncData

variable {d : VgaFuncData} {reg : Registers} {ab : Nat}

theorem fastPath_mono {stop stop' : Nat} (le : stop' ≤ stop) (fast : d.fastPath stop = true) :
    d.fastPath stop' = true := by
  unfold fastPath at fast ⊢
  cases first : d.fence0 with
  | none => rw [first] at fast; cases fast
  | some i =>
    rw [first] at fast
    simp only [decide_eq_true_eq] at fast ⊢
    exact ⟨le.trans fast.1, fast.2⟩

theorem copyline_linear (linear : ¬d.tiled = true) (unfenced : ∀ f ∈ d.fences, len ≤ f.start ∨ f.stop = 0)
    (some' : 0 < nbytes) (inside : d.vramOff + tmp1 + nbytes ≤ len) (small : len < 2 ^ 32) :
    d.copyline tmp1 buf nbytes = [⟨d.vramOff + tmp1, buf, nbytes⟩] := by
  unfold copyline
  dsimp only
  rw [if_neg linear, u32_of_lt (show d.vramOff + tmp1 < 2 ^ 32 by omega), u32_of_lt (show nbytes < 2 ^ 32 by omega)]
  exact copylineSub_unfenced d.fences unfenced some' inside small

theorem copyline_fast (tiled : d.tiled = true) (fast : d.fastPath (d.vramOff + tmp1 + nbytes) = true) :
    d.copyline tmp1 buf nbytes = [⟨d.vramOff + tmp1, buf, nbytes⟩] := by
  unfold copyline
  dsimp only
  rw [if_pos tiled, if_pos fast]
  rfl

theorem and_tile (x : Nat) : x &&& 0xE00 = x / 512 % 8 * 512 := by
  have shifted : x / 512 % 8 * 512 = ((x >>> 9) % 2 ^ 3) <<< 9 := by
    simp only [Nat.shiftLeft_eq, Nat.shiftRight_eq_div_pow, Nat.reducePow]
  have mask : (0xE00 : Nat) = (2 ^ 3 - 1) <<< 9 := rfl
  rw [shifted, mask]
  apply Nat.eq_of_testBit_eq
  intro i
  rw [Nat.testBit_and, Nat.testBit_shiftLeft, Nat.testBit_shiftLeft, Nat.testBit_mod_two_pow,
    Nat.testBit_two_pow_sub_one, Nat.testBit_shiftRight]
  by_cases low : 9 ≤ i
  · rw [Nat.add_sub_cancel' low]
    simp [low, Bool.and_comm]
  · simp [low]

theorem swap64Line_zero : d.swap64Line.testBit 0 = false := by
  unfold swap64Line swap64LineOf
  split
  · rfl
  · split
    · rfl
    · split <;> rfl

theorem copyline_tile (tiled : d.tiled = true) (page : d.vramOff = 0)
    (unfenced : ∀ f ∈ d.fences, len ≤ f.start ∨ f.stop = 0) (tile : len ≤ 512) (row : len ≤ d.stride)
    (some' : 0 < nbytes) (inside : tmp1 + nbytes ≤ len) : d.copyline tmp1 buf nbytes = [⟨tmp1, buf, nbytes⟩] := by
  by_cases fast : d.fastPath (d.vramOff + tmp1 + nbytes) = true
  · rw [copyline_fast tiled fast, page, Nat.zero_add]
  · unfold copyline
    dsimp only
    rw [if_pos tiled, if_neg fast, page, Nat.zero_add]
    have first : tmp1 / d.stride = 0 := Nat.div_eq_of_lt (by omega)
    have column : tmp1 % d.stride = tmp1 := Nat.mod_eq_of_lt (by omega)
    have low : tmp1 &&& 0xE00 = 0 := by
      rw [and_tile]
      omega
    have block : tmp1 % 512 = tmp1 := Nat.mod_eq_of_lt (by omega)
    rw [first, column, low, block]
    simp only [Nat.zero_div, Nat.zero_mul, Nat.zero_mod, Nat.add_zero, swap64Line_zero]
    cases nbytes with
    | zero => exact absurd some' (Nat.lt_irrefl 0)
    | succ n =>
      unfold tileLoop
      rw [if_neg (by omega), Nat.add_zero, u32_of_lt (show tmp1 < 2 ^ 32 by omega)]
      exact copylineSub_unfenced d.fences unfenced some' inside (by omega)

theorem Straight.copyline (straight : d.Straight) (small : d.vramMappedLen < 2 ^ 32) (some' : 0 < nbytes)
    (inside : tmp1 + nbytes ≤ d.vramMappedLen) : d.copyline tmp1 buf nbytes = [⟨tmp1, buf, nbytes⟩] := by
  obtain ⟨page, -, layout⟩ := straight
  have place : d.vramOff + tmp1 = tmp1 := by rw [page, Nat.zero_add]
  by_cases tiled : d.tiled = true
  · rw [if_pos tiled] at layout
    rcases layout with fast | ⟨unfenced, tile, row⟩
    · rw [copyline_fast tiled (fastPath_mono (by rw [place]; exact inside) fast), place]
    · exact copyline_tile tiled page unfenced tile row some' inside
  · rw [if_neg tiled] at layout
    rw [copyline_linear tiled layout some' (by rw [place]; exact inside) small, place]

theorem below_single (inside : offset + nbytes ≤ len) : Below [⟨offset, buf, nbytes⟩] len := by
  intro copy member i bound
  rw [mem_singleton.mp member] at bound ⊢
  exact Nat.lt_of_lt_of_le (Nat.add_lt_add_left bound offset) inside

theorem lineStart_mod (rows : d.stride % 64 = 0) (x y yy : Nat) : d.lineStart x y yy % 4 = 0 := by
  unfold lineStart u32
  have row : (y + yy) % 2 ^ 32 * d.stride % 4 = 0 := by
    rw [Nat.mul_mod]
    have aligned : d.stride % 4 = 0 := by omega
    rw [aligned, Nat.mul_zero, Nat.zero_mod]
  omega

theorem lineStop_le (tmp1 : Nat) (width : UInt32) : d.lineStop tmp1 width ≤ d.vramMappedLen := Nat.min_le_right _ _

theorem Straight.transferImage (straight : d.Straight) (small : d.vramMappedLen < 2 ^ 32)
    (dir : VgaFuncTransferDir) (type : VgaFuncImageType) (stride width lines x y : UInt32) :
    Below (d.vgaIntelTransferImage dir type stride width lines x y).2 d.vramMappedLen := by
  unfold vgaIntelTransferImage
  dsimp only
  split
  · exact fun _ member => absurd member not_mem_nil
  · split
    · exact fun _ member => absurd member not_mem_nil
    · split
      · exact fun _ member => absurd member not_mem_nil
      · intro copy member
        obtain ⟨yy, filled, copied⟩ := mem_flatMap.mp member
        have some' := of_decide_eq_true (mem_filter.mp filled).2
        have stop := d.lineStop_le (d.lineStart (u32 (x.toNat + xOffset d.tiledOff))
          (u32 (y.toNat + yOffset d.tiledOff)) yy) width
        rw [straight.copyline small (by omega) (by omega)] at copied
        exact below_single (by omega) copy copied

theorem Straight.fillRect (straight : d.Straight) (small : d.vramMappedLen < 2 ^ 32)
    (rows : d.stride % 64 = 0) (type : VgaFuncImageType) (x y width height : UInt32) :
    Below (d.vgaIntelFillRect type x y width height).2 d.vramMappedLen := by
  unfold vgaIntelFillRect
  dsimp only
  split
  · exact fun _ member => absurd member not_mem_nil
  · split
    · exact fun _ member => absurd member not_mem_nil
    · intro copy member
      obtain ⟨yy, -, line⟩ := mem_flatMap.mp member
      obtain ⟨tmp1, pixel, copied⟩ := mem_flatMap.mp line
      obtain ⟨i, number, rfl⟩ := mem_map.mp pixel
      have bound := mem_range.mp number
      have start := lineStart_mod rows (u32 (x.toNat + xOffset d.tiledOff)) (u32 (y.toNat + yOffset d.tiledOff)) yy
      have stop := d.lineStop_le (d.lineStart (u32 (x.toNat + xOffset d.tiledOff))
        (u32 (y.toNat + yOffset d.tiledOff)) yy) width
      have whole := straight.2.1
      rw [straight.copyline small (by omega) (by omega)] at copied
      exact below_single (by omega) copy copied

theorem lineStop_sub_eq_zero (empty : d.vramMappedLen = 0) (tmp1 : Nat) (width : UInt32) :
    d.lineStop tmp1 width = 0 := by
  have stop := d.lineStop_le tmp1 width
  omega

theorem below_of_empty (empty : d.vramMappedLen = 0) :
    (∀ dir type stride width lines x y,
      Below (d.vgaIntelTransferImage dir type stride width lines x y).2 d.vramMappedLen) ∧
    ∀ type x y width height, Below (d.vgaIntelFillRect type x y width height).2 d.vramMappedLen := by
  constructor
  · intro dir type stride width lines x y
    unfold vgaIntelTransferImage
    dsimp only
    simp only [lineStop_sub_eq_zero empty, Nat.zero_le, not_true, decide_false, filter_false]
    intro copy member
    split at member
    · exact absurd member not_mem_nil
    · split at member
      · exact absurd member not_mem_nil
      · split at member
        · exact absurd member not_mem_nil
        · exact absurd member not_mem_nil
  · intro type x y width height
    unfold vgaIntelFillRect pixels
    dsimp only
    simp only [lineStop_sub_eq_zero empty, Nat.zero_sub]
    intro copy member
    split at member
    · exact absurd member not_mem_nil
    · split at member
      · exact absurd member not_mem_nil
      · obtain ⟨yy, -, line⟩ := mem_flatMap.mp member
        exact absurd line not_mem_nil

theorem Meets.within (meets : d.Meets reg ab) (ready : Ready reg ab d) : d.Within reg ab := by
  have page : d.vramOff < 4096 := by
    rw [ready.vramOff]
    exact Nat.mod_lt _ (by decide)
  have short : d.stride ≤ 0xFFC0 := ready.stride.symm ▸ strideOf_le reg ab
  have rows : d.stride % 64 = 0 := ready.stride.symm ▸ strideOf_mod reg ab
  have address : surface reg ab < 2 ^ 32 := Nat.mod_lt _ (by decide)
  have length := ready.mappedLen
  have small : d.vramMappedLen < 2 ^ 31 := by
    rw [length]
    exact mappedLen_lt page short
  refine ⟨?_, ?_⟩
  · rw [length]
    exact (mappedLen_inside d.vramLen.toNat_lt (by omega)).mpr meets.1
  · rcases meets.2 with empty | straight
    · exact below_of_empty empty
    · exact ⟨straight.transferImage (by omega), straight.fillRect (by omega) rows⟩

end VgaFuncData

end DisasVisor.Vga
