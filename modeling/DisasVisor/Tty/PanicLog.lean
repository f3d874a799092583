import Mathlib.Data.List.DropRight
import DisasVisor.Lib.Memory
import DisasVisor.Lib.Rings

/-!
The log ring of `core/tty.c`. The offset is an unsigned 32-bit integer that is reduced only where
it is used, so it may run below zero.
-/

namespace DisasVisor.Tty

open List

abbrev logSize : Nat := 65536

structure Logbuf where
  logoffset : UInt32
  loglen : UInt32
  log : Fin logSize → UInt8

def logIndex (index : UInt32) : Fin logSize := Fin.ofNat logSize index.toNat

structure TtyState where
  logbuf : Logbuf
  logflag : Bool
  panicmem : Memory
  panicmemStartPage : Nat

def Logbuf.put (b : Logbuf) (c : UInt8) : Logbuf :=
  let log := Function.update b.log (logIndex (b.logoffset + b.loglen)) c
  if b.loglen = 65536 then { b with log := log, logoffset := (b.logoffset + 1) % 65536 }
  else { b with log := log, loglen := b.loglen + 1 }

def ttyPutchar (s : TtyState) (c : UInt8) : TtyState :=
  if s.logflag then { s with logbuf := s.logbuf.put c } else s

def ttyInitGlobal (log : Fin logSize → UInt8) (panicmem : Memory) (page : Nat) : TtyState :=
  { logbuf := { logoffset := 0, loglen := 0, log := log }, logflag := true, panicmem := panicmem,
    panicmemStartPage := page }

def Logbuf.contents (b : Logbuf) : List UInt8 := Rings.window b.log b.logoffset.toNat b.loglen.toNat

def Logbuf.Valid (b : Logbuf) : Prop := b.loglen.toNat ≤ logSize

theorem logIndex_eq {index : UInt32} {place : Nat} (same : index.toNat % logSize = place % logSize) :
    logIndex index = Fin.ofNat logSize place :=
  Rings.ofNat_congr same

@[simp] theorem Logbuf.length_contents (b : Logbuf) : b.contents.length = b.loglen.toNat := by
  simp [contents]

theorem Logbuf.put_contents {b : Logbuf} (valid : b.Valid) (c : UInt8) :
    (b.put c).contents = (b.contents ++ [c]).rtake logSize ∧ (b.put c).Valid := by
  have place : logIndex (b.logoffset + b.loglen) = Fin.ofNat logSize (b.logoffset.toNat + b.loglen.toNat) := by
    apply logIndex_eq
    rw [UInt32.toNat_add]
    simp only [logSize]
    omega
  by_cases full : b.loglen = 65536
  · have len : b.loglen.toNat = logSize := by simp [full]
    have offset : ((b.logoffset + 1) % 65536).toNat % logSize = (b.logoffset.toNat + 1) % logSize := by
      have bound : (65536 : UInt32).toNat = 65536 := rfl
      rw [UInt32.toNat_mod, UInt32.toNat_add, bound, UInt32.toNat_one]
      simp only [logSize]
      omega
    refine ⟨?_, by simp [put, full, Valid]⟩
    have next : (b.put c).contents = (Rings.window b.log b.logoffset.toNat logSize).tail ++ [c] := by
      simp only [put, if_pos full, contents, place, len]
      rw [Rings.window_congr _ _ _ offset, Rings.window_rotate]
    have full' : b.contents = Rings.window b.log b.logoffset.toNat logSize := by rw [contents, len]
    rw [next, List.rtake, full']
    cases split : Rings.window b.log b.logoffset.toNat logSize with
    | nil => simp [← length_eq_zero_iff] at split
    | cons first rest =>
      have count := congrArg List.length split
      simp only [Rings.length_window, length_cons] at count
      rw [tail_cons, length_append, length_cons, ← count]
      simp
  · have below : b.loglen.toNat < logSize := by
      refine lt_of_le_of_ne valid (fun same => full ?_)
      exact UInt32.toNat_inj.mp same
    have len : (b.loglen + 1).toNat = b.loglen.toNat + 1 := by
      rw [UInt32.toNat_add, UInt32.toNat_one]
      simp only [logSize] at below
      omega
    refine ⟨?_, by simp only [put, if_neg full, Valid, len]; omega⟩
    simp only [put, if_neg full, contents, place, len]
    rw [Rings.window_push _ _ _ below, List.rtake]
    simp only [length_append, Rings.length_window, length_singleton]
    rw [Nat.sub_eq_zero_of_le (by omega), drop_zero]

theorem rtake_append_rtake {α : Type} (n : Nat) (front back : List α) :
    (front.rtake n ++ back).rtake n = (front ++ back).rtake n := by
  simp only [List.rtake, length_append, length_drop, drop_append, drop_drop]
  congr 2 <;> omega

theorem foldl_put_contents (cs : List UInt8) : ∀ b : Logbuf, b.Valid →
    (cs.foldl Logbuf.put b).contents = (b.contents ++ cs).rtake logSize ∧ (cs.foldl Logbuf.put b).Valid := by
  induction cs with
  | nil =>
    intro b valid
    refine ⟨?_, valid⟩
    rw [append_nil, List.rtake, Nat.sub_eq_zero_of_le, drop_zero]
    · rfl
    · rw [Logbuf.length_contents]
      exact valid
  | cons c cs ih =>
    intro b valid
    obtain ⟨put, still⟩ := b.put_contents valid c
    obtain ⟨rest, last⟩ := ih (b.put c) still
    refine ⟨?_, last⟩
    rw [foldl_cons, rest, put, rtake_append_rtake, append_assoc, singleton_append]

theorem foldl_ttyPutchar (cs : List UInt8) : ∀ s : TtyState, s.logflag = true →
    cs.foldl ttyPutchar s = { s with logbuf := cs.foldl Logbuf.put s.logbuf } := by
  induction cs with
  | nil =>
    intro s _
    rfl
  | cons c cs ih =>
    intro s logs
    rw [foldl_cons, foldl_cons, ttyPutchar, if_pos logs]
    exact ih _ logs

/-!
The copies of the log that `core/tty.c` leaves in reserved pages at a panic, and their recovery
after a reboot. An access outside the reserved pages gives `none`.
-/

def sizeofLogbuf : Nat := 0x11000

def sizeofMem : Nat := 32

def panicmemLen : Nat := 256 * 4096

def copyStride : Nat := sizeofLogbuf + sizeofMem

def cString (text : String) : List UInt8 := text.toList.map fun c => UInt8.ofNat c.toNat

def panicmemKeyInvert : List UInt8 := cString "bitvisor panic log" ++ [0]

def panicmemKey : List UInt8 := panicmemKeyInvert.map (~~~ ·) ++ List.replicate (24 - panicmemKeyInvert.length) 0xFF

def oldLogFound : List UInt8 := cString "Old log found in RAM\n"

def sizeT (value : Int) : Nat := (value % 2 ^ 64).toNat

def intOf (value : Nat) : Int := (BitVec.ofNat 32 value).toInt

def reach (start count : Nat) : Option Unit :=
  if start + count ≤ panicmemLen then some () else none

structure CopyState where
  tty : TtyState
  flag : Bool

def CopyState.setPanicmem (s : CopyState) (panicmem : Memory) : CopyState :=
  { s with tty := { s.tty with panicmem := panicmem } }

variable (crc32 : List UInt8 → UInt32)

def ttylogCopyToPanicmemOne (mem memlen : Nat) (s : CopyState) : Option CopyState := do
  let b := s.tty.logbuf
  let loglen := intOf b.loglen.toNat
  let room : Int := memlen - sizeofMem
  let long := sizeT loglen > sizeT room
  let copyoff := if long then intOf (sizeT (loglen - room)) else 0
  let copylen := if long then intOf (sizeT room) else loglen
  reach (mem + sizeofMem) copylen.toNat
  let memory := s.tty.panicmem.blit (mem + sizeofMem) copylen.toNat fun i =>
    b.log (logIndex (b.logoffset + UInt32.ofInt copyoff + UInt32.ofNat i))
  reach mem sizeofMem
  let memory := memory.setDword (mem + 28) (sizeT copylen)
  let memory := memory.setDword (mem + 24) 0
  let memory := memory.writeBytes mem panicmemKey
  let crclen := sizeT (sizeofMem + copylen) % 2 ^ 32
  reach mem crclen
  return s.setPanicmem (memory.setDword (mem + 24) (crc32 (memory.slice mem crclen)).toNat)

def Logbuf.prepend (b : Logbuf) (c : UInt8) : Logbuf :=
  let logoffset := b.logoffset - 1
  { logoffset := logoffset, loglen := b.loglen + 1,
    log := Function.update b.log (logIndex logoffset) c }

def prependLoop (memory : Memory) (buf : Nat) : Nat → Logbuf → Option Logbuf
  | 0, b => some b
  | remaining + 1, b =>
    if b.loglen.toNat < logSize then do
      reach (buf + remaining) 1
      prependLoop memory buf remaining (b.prepend (memory (buf + remaining)))
    else some b

def clearHeader (mem : Nat) (s : CopyState) : Option CopyState := do
  reach mem sizeofMem
  return s.setPanicmem (s.tty.panicmem.blit mem sizeofMem fun _ => 0)

def ttylogCopyFromPanicmemOne (mem memlen : Nat) (s : CopyState) : Option CopyState := do
  if s.flag then clearHeader mem s
  else
    reach mem sizeofMem
    let memory := s.tty.panicmem
    let copylen := intOf (memory.dword (mem + 28))
    if sizeT copylen > sizeT (memlen - sizeofMem) then clearHeader mem s
    else if memory.slice mem 24 ≠ panicmemKey then clearHeader mem s
    else
      let crc := memory.dword (mem + 24)
      let memory := memory.setDword (mem + 24) 0
      let s := s.setPanicmem memory
      let crclen := sizeT (sizeofMem + copylen) % 2 ^ 32
      reach mem crclen
      if crc ≠ (crc32 (memory.slice mem crclen)).toNat then clearHeader mem s
      else
        let printed := oldLogFound.foldl ttyPutchar s.tty
        let logbuf ← prependLoop memory (mem + sizeofMem) copylen.toNat printed.logbuf
        clearHeader mem { tty := { printed with logbuf := logbuf }, flag := true }

def ttylogCopyPanicmemLoop (copyOne : Nat → Nat → CopyState → Option CopyState) (mem memlen : Nat)
    (s : CopyState) : Option CopyState :=
  if copyStride < memlen then do
    let s ← copyOne mem memlen s
    ttylogCopyPanicmemLoop copyOne (mem + copyStride) (memlen - copyStride) s
  else some s
termination_by memlen
decreasing_by simp only [copyStride, sizeofLogbuf, sizeofMem] at *; omega

def ttylogCopyPanicmem (copyOne : Nat → Nat → CopyState → Option CopyState) (s : TtyState) : Option TtyState :=
  if s.panicmemStartPage = 0 then some s
  else (ttylogCopyPanicmemLoop copyOne 0 panicmemLen { tty := s, flag := false }).map (·.tty)

def ttylogCopyToPanicmem (s : TtyState) : Option TtyState := ttylogCopyPanicmem (ttylogCopyToPanicmemOne crc32) s

def ttylogCopyFromPanicmem (s : TtyState) : Option TtyState := ttylogCopyPanicmem (ttylogCopyFromPanicmemOne crc32) s

def copyPlaces (mem memlen : Nat) : List (Nat × Nat) :=
  if copyStride < memlen then (mem, memlen) :: copyPlaces (mem + copyStride) (memlen - copyStride)
  else []
termination_by memlen
decreasing_by simp only [copyStride, sizeofLogbuf, sizeofMem] at *; omega

def Passes (memory : Memory) (place : Nat × Nat) : Prop :=
  let copylen := intOf (memory.dword (place.1 + 28))
  sizeT copylen ≤ sizeT (place.2 - sizeofMem) ∧ memory.slice place.1 24 = panicmemKey ∧
    memory.dword (place.1 + 24) = (crc32 ((memory.setDword (place.1 + 24) 0).slice place.1
      (sizeT (sizeofMem + copylen) % 2 ^ 32))).toNat

structure IsCopy (memory : Memory) (mem : Nat) (text : List UInt8) : Prop where
  key : memory.slice mem 24 = panicmemKey
  len : memory.dword (mem + 28) = text.length
  buf : memory.slice (mem + sizeofMem) text.length = text
  crc : memory.dword (mem + 24) = (crc32 ((memory.setDword (mem + 24) 0).slice mem (sizeofMem + text.length))).toNat

end DisasVisor.Tty
