import DisasVisor.Tty.PanicLog

/-!
An intact copy gives the old log back, in front of the log of the fresh run, whatever the other
copies hold.
-/

namespace DisasVisor.Tty

open List
open Option (bind_eq_bind bind_some)
open Memory (setDword_outside)

variable {crc32 : List UInt8 → UInt32} {memory other : Memory} {mem memlen : Nat} {text : List UInt8} {s : CopyState}

theorem length_panicmemKey : panicmemKey.length = 24 := by decide

theorem intOf_small {value : Nat} (small : value < 2 ^ 31) : intOf value = value := by
  rw [intOf, BitVec.toInt_ofNat']
  exact Int.bmod_eq_of_le (by omega) (by omega)

theorem sizeT_ofNat {value : Nat} (small : value < 2 ^ 64) : sizeT value = value := by
  simp only [sizeT]
  omega

theorem copylen_range {value bound : Nat} (fits : sizeT (intOf value) ≤ bound)
    (small : bound < 2 ^ 63) : 0 ≤ intOf value ∧ intOf value ≤ bound := by
  have low : -(2 ^ 31 : Int) ≤ intOf value := BitVec.le_toInt _
  have high : intOf value < 2 ^ 31 := BitVec.toInt_lt
  generalize intOf value = copylen at fits low high ⊢
  simp only [sizeT] at fits
  omega

theorem reach_of_le {start count : Nat} (inside : start + count ≤ panicmemLen) :
    reach start count = some () := if_pos inside

theorem slice_outside {start count : Nat} (same : ∀ i, start ≤ i → i < start + count →
    other i = memory i) : other.slice start count = memory.slice start count :=
  other.slice_congr fun offset inside => same _ (by omega) (by omega)

theorem dword_outside {address : Nat} (same : ∀ i, address ≤ i → i < address + 4 →
    other i = memory i) : other.dword address = memory.dword address := by
  simp only [Memory.dword, Memory.word]
  rw [same address (by omega) (by omega), same (address + 1) (by omega) (by omega),
    same (address + 2) (by omega) (by omega), same (address + 2 + 1) (by omega) (by omega)]

theorem IsCopy.congr (copy : IsCopy crc32 memory mem text)
    (same : ∀ i, mem ≤ i → i < mem + sizeofMem + text.length → other i = memory i) :
    IsCopy crc32 other mem text := by
  simp only [sizeofMem] at same
  constructor
  · rw [← copy.key]
    exact slice_outside fun i low high => same i low (by omega)
  · rw [← copy.len]
    exact dword_outside fun i low high => same i (by omega) (by omega)
  · have kept : other.slice (mem + sizeofMem) text.length = memory.slice (mem + sizeofMem) text.length := by
      apply slice_outside
      intro i low high
      simp only [sizeofMem] at low high
      exact same i (by omega) high
    rw [kept, copy.buf]
  · have header : other.dword (mem + 24) = memory.dword (mem + 24) :=
      dword_outside fun i low high => same i (by omega) (by omega)
    have bytes : (other.setDword (mem + 24) 0).slice mem (sizeofMem + text.length) =
        (memory.setDword (mem + 24) 0).slice mem (sizeofMem + text.length) := by
      apply slice_outside
      intro i low high
      simp only [sizeofMem] at high
      exact memory.setDword_congr 0 fun _ => same i low (by omega)
    rw [header, copy.crc, bytes]

def writeCopy (crc32 : List UInt8 → UInt32) (memory : Memory) (mem : Nat) (text : List UInt8) : Memory :=
  let filled := (((memory.writeBytes (mem + sizeofMem) text).setDword (mem + 28)
    text.length).setDword (mem + 24) 0).writeBytes mem panicmemKey
  filled.setDword (mem + 24) (crc32 (filled.slice mem (sizeofMem + text.length))).toNat

theorem writeBytes_outside {start i : Nat} {bytes : List UInt8}
    (outside : i < start ∨ start + bytes.length ≤ i) : memory.writeBytes start bytes i = memory i :=
  memory.blit_outside _ outside

theorem writeCopy_outside {i : Nat} (outside : i < mem ∨ mem + sizeofMem + text.length ≤ i) :
    writeCopy crc32 memory mem text i = memory i := by
  simp only [sizeofMem] at outside
  simp only [writeCopy, sizeofMem]
  rw [setDword_outside _ _ (by omega), writeBytes_outside (by rw [length_panicmemKey]; omega),
    setDword_outside _ _ (by omega), setDword_outside _ _ (by omega),
    writeBytes_outside (by omega)]

theorem writeCopy_isCopy (fits : text.length < 2 ^ 31) : IsCopy crc32 (writeCopy crc32 memory mem text) mem text := by
  generalize filledEq : (((memory.writeBytes (mem + sizeofMem) text).setDword (mem + 28)
    text.length).setDword (mem + 24) 0).writeBytes mem panicmemKey = filled
  have written : writeCopy crc32 memory mem text = filled.setDword (mem + 24)
      (crc32 (filled.slice mem (sizeofMem + text.length))).toNat := by
    rw [← filledEq]
    rfl
  have keyless : ∀ i, mem + 24 ≤ i → filled i = ((memory.writeBytes (mem + sizeofMem)
      text).setDword (mem + 28) text.length).setDword (mem + 24) 0 i := by
    intro i above
    rw [← filledEq, writeBytes_outside (by rw [length_panicmemKey]; omega)]
  have zero : (filled.setDword (mem + 24) 0).slice mem (sizeofMem + text.length) =
      filled.slice mem (sizeofMem + text.length) := by
    apply slice_outside
    intro i low _
    by_cases field : mem + 24 ≤ i ∧ i < mem + 28
    · rw [keyless i field.1]
      refine Memory.setDword_congr _ 0 fun outside => ?_
      omega
    · exact setDword_outside _ _ (by omega)
  constructor
  · have first : filled.slice mem 24 = panicmemKey := by
      rw [← filledEq, ← length_panicmemKey]
      exact Memory.slice_writeBytes _ _ _
    rw [written, ← first]
    exact slice_outside fun i low high => setDword_outside _ _ (by omega)
  · have field : (writeCopy crc32 memory mem text).dword (mem + 28) =
        ((memory.writeBytes (mem + sizeofMem) text).setDword (mem + 28) text.length).dword
          (mem + 28) := by
      apply dword_outside
      intro i low high
      rw [written, setDword_outside _ _ (by omega), keyless i (by omega), setDword_outside _ _ (by omega)]
    rw [field, Memory.dword_setDword]
    exact Nat.mod_eq_of_lt (by omega)
  · have bytes : (writeCopy crc32 memory mem text).slice (mem + sizeofMem) text.length =
        (memory.writeBytes (mem + sizeofMem) text).slice (mem + sizeofMem) text.length := by
      apply slice_outside
      intro i low high
      simp only [sizeofMem] at low
      rw [written, setDword_outside _ _ (by omega), keyless i (by omega),
        setDword_outside _ _ (by omega), setDword_outside _ _ (by omega)]
    rw [bytes, Memory.slice_writeBytes]
  · have crcField : (writeCopy crc32 memory mem text).dword (mem + 24) =
        (crc32 (filled.slice mem (sizeofMem + text.length))).toNat := by
      rw [written, Memory.dword_setDword]
      exact Nat.mod_eq_of_lt (crc32 _).toNat_lt
    have cleared : ((writeCopy crc32 memory mem text).setDword (mem + 24) 0).slice mem
        (sizeofMem + text.length) =
        (filled.setDword (mem + 24) 0).slice mem (sizeofMem + text.length) := by
      apply slice_outside
      intro i low _
      rw [written]
      refine Memory.setDword_congr _ 0 fun outside => setDword_outside _ _ (by omega)
    rw [crcField, cleared, zero]

@[simp] theorem setPanicmem_logbuf (m : Memory) : (s.setPanicmem m).tty.logbuf = s.tty.logbuf := rfl

@[simp] theorem setPanicmem_panicmem (m : Memory) : (s.setPanicmem m).tty.panicmem = m := rfl

@[simp] theorem setPanicmem_setPanicmem (m m' : Memory) : (s.setPanicmem m).setPanicmem m' = s.setPanicmem m' := rfl

theorem blit_log (b : Logbuf) (start : Nat) :
    (memory.blit start b.loglen.toNat fun i =>
      b.log (logIndex (b.logoffset + UInt32.ofInt 0 + UInt32.ofNat i))) = memory.writeBytes start b.contents := by
  funext i
  rw [Memory.writeBytes, Logbuf.length_contents]
  simp only [Memory.blit]
  split
  · rename_i inside
    have below : i - start < b.loglen.toNat := by omega
    have bound := b.loglen.toNat_lt
    have index : logIndex (b.logoffset + UInt32.ofInt 0 + UInt32.ofNat (i - start)) =
        Fin.ofNat logSize (b.logoffset.toNat + (i - start)) := by
      apply logIndex_eq
      have zero : (UInt32.ofInt 0).toNat = 0 := rfl
      have small : (UInt32.ofNat (i - start)).toNat = i - start := by
        rw [UInt32.toNat_ofNat']
        exact Nat.mod_eq_of_lt (by omega)
      rw [UInt32.toNat_add, UInt32.toNat_add, zero, small]
      simp only [logSize]
      omega
    rw [index]
    simp [Logbuf.contents, Rings.window, below]
  · rfl

theorem ttylogCopyToPanicmemOne_eq (valid : s.tty.logbuf.Valid) (room : copyStride < memlen)
    (inside : mem + memlen ≤ panicmemLen) :
    ttylogCopyToPanicmemOne crc32 mem memlen s =
      some (s.setPanicmem (writeCopy crc32 s.tty.panicmem mem s.tty.logbuf.contents)) := by
  simp only [Logbuf.Valid, logSize] at valid
  simp only [copyStride, sizeofLogbuf, sizeofMem] at room
  simp only [panicmemLen] at inside
  have len : intOf s.tty.logbuf.loglen.toNat = s.tty.logbuf.loglen.toNat := intOf_small (by omega)
  have size : sizeT (s.tty.logbuf.loglen.toNat : Int) = s.tty.logbuf.loglen.toNat := sizeT_ofNat (by omega)
  have space : sizeT ((memlen : Int) - sizeofMem) = memlen - sizeofMem := by
    simp only [sizeT, sizeofMem]
    omega
  have fits : ¬s.tty.logbuf.loglen.toNat > sizeT ((memlen : Int) - sizeofMem) := by
    rw [space]
    simp only [sizeofMem]
    omega
  have whole : sizeT ((sizeofMem : Nat) + (s.tty.logbuf.loglen.toNat : Int)) % 2 ^ 32 =
      sizeofMem + s.tty.logbuf.contents.length := by
    rw [Logbuf.length_contents]
    simp only [sizeT, sizeofMem]
    omega
  simp only [ttylogCopyToPanicmemOne, len, if_neg fits, Int.toNat_natCast, whole, blit_log, size]
  rw [reach_of_le (by simp only [sizeofMem, panicmemLen]; omega),
    reach_of_le (by simp only [sizeofMem, panicmemLen]; omega),
    reach_of_le (by rw [Logbuf.length_contents]; simp only [sizeofMem, panicmemLen]; omega)]
  simp only [writeCopy, Logbuf.length_contents, bind_eq_bind, bind_some, Option.pure_def]

theorem ttylogCopyToPanicmem_loop : ∀ (mem memlen : Nat) (s : CopyState), s.tty.logbuf.Valid →
    mem + memlen ≤ panicmemLen → ∃ memory,
      ttylogCopyPanicmemLoop (ttylogCopyToPanicmemOne crc32) mem memlen s = some (s.setPanicmem memory) ∧
      (∀ i < mem, memory i = s.tty.panicmem i) ∧
      ∀ place ∈ copyPlaces mem memlen, IsCopy crc32 memory place.1 s.tty.logbuf.contents := by
  intro mem memlen
  induction mem, memlen using copyPlaces.induct with
  | case1 mem memlen room ih =>
    intro s valid inside
    have small : s.tty.logbuf.contents.length ≤ logSize := by
      rw [Logbuf.length_contents]
      exact valid
    have shape : copyStride = 69664 := rfl
    simp only [logSize] at small
    rw [ttylogCopyPanicmemLoop, if_pos room, copyPlaces, if_pos room,
      ttylogCopyToPanicmemOne_eq valid room inside, bind_eq_bind, bind_some]
    obtain ⟨memory, ran, before, copies⟩ := ih (s.setPanicmem (writeCopy crc32 s.tty.panicmem mem
      s.tty.logbuf.contents)) valid (by omega)
    rw [setPanicmem_setPanicmem] at ran
    simp only [setPanicmem_panicmem] at before
    simp only [setPanicmem_logbuf] at copies
    refine ⟨memory, ran, ?_, ?_⟩
    · intro i below
      rw [before i (by omega)]
      exact writeCopy_outside (.inl below)
    · intro place member
      rcases mem_cons.mp member with rfl | later
      · have here : IsCopy crc32 (writeCopy crc32 s.tty.panicmem mem s.tty.logbuf.contents) mem
            s.tty.logbuf.contents := writeCopy_isCopy (by omega)
        refine here.congr fun i low high => ?_
        simp only [sizeofMem] at high
        exact before i (by omega)
      · exact copies place later
  | case2 mem memlen full =>
    intro s valid inside
    refine ⟨s.tty.panicmem, ?_, fun _ _ => rfl, ?_⟩
    · rw [ttylogCopyPanicmemLoop, if_neg full]
      rfl
    · intro place member
      rw [copyPlaces, if_neg full] at member
      cases member

theorem Logbuf.prepend_contents {b : Logbuf} (room : b.loglen.toNat < logSize) (c : UInt8) :
    (b.prepend c).contents = c :: b.contents ∧ (b.prepend c).Valid ∧
      (b.prepend c).contents.length = b.contents.length + 1 := by
  simp only [logSize] at room
  have len : (b.loglen + 1).toNat = b.loglen.toNat + 1 := by
    rw [UInt32.toNat_add, UInt32.toNat_one]
    omega
  have offset : ((b.logoffset - 1).toNat + 1) % logSize = b.logoffset.toNat % logSize := by
    rw [UInt32.toNat_sub, UInt32.toNat_one]
    simp only [logSize]
    omega
  have longer : (b.prepend c).contents = c :: b.contents := by
    simp only [prepend, contents, len, logIndex]
    exact Rings.window_unshift _ _ _ room _ offset _
  refine ⟨longer, ?_, ?_⟩
  · simp only [prepend, Valid, len, logSize]
    omega
  · rw [longer, length_cons]

theorem prependLoop_contents (buf : Nat) (count : Nat) : ∀ b : Logbuf, b.Valid →
    buf + count ≤ panicmemLen → ∃ b', prependLoop memory buf count b = some b' ∧ b'.Valid ∧
      b'.contents = (memory.slice buf count).rtake (logSize - b.contents.length) ++ b.contents := by
  induction count with
  | zero =>
    intro b valid _
    exact ⟨b, rfl, valid, by simp [rtake_nil]⟩
  | succ count ih =>
    intro b valid inside
    rw [prependLoop]
    by_cases room : b.loglen.toNat < logSize
    · rw [if_pos room, reach_of_le (by omega)]
      obtain ⟨longer, valid', length⟩ := b.prepend_contents room (memory (buf + count))
      obtain ⟨b', ran, valid'', eq⟩ := ih _ valid' (by omega)
      refine ⟨b', ran, valid'', ?_⟩
      have more : logSize - b.contents.length = logSize - (b.contents.length + 1) + 1 := by
        rw [Logbuf.length_contents]
        omega
      have last : memory.slice buf (count + 1) = memory.slice buf count ++ [memory (buf + count)] := by
        simp [Memory.slice, range_succ]
      rw [eq, length, longer, last, more, rtake_concat_succ, append_assoc, singleton_append]
    · have full : logSize - b.contents.length = 0 := by
        rw [Logbuf.length_contents]
        omega
      refine ⟨b, if_neg room, valid, ?_⟩
      rw [full, rtake_zero, nil_append]

theorem clearHeader_eq (inside : mem + sizeofMem ≤ panicmemLen) :
    clearHeader mem s = some (s.setPanicmem (s.tty.panicmem.blit mem sizeofMem fun _ => 0)) := by
  rw [clearHeader, reach_of_le inside]
  rfl

def announced (b : Logbuf) : Logbuf := oldLogFound.foldl Logbuf.put b

def CopiedOne (crc32 : List UInt8 → UInt32) (mem memlen : Nat) (s : CopyState) : Prop :=
  ∃ panicmem b flag, ttylogCopyFromPanicmemOne crc32 mem memlen s =
      some { tty := { s.tty with logbuf := b, panicmem := panicmem }, flag := flag } ∧
    (∀ i, mem + sizeofMem ≤ i → panicmem i = s.tty.panicmem i) ∧ b.Valid ∧
    ((s.flag = true ∨ ¬Passes crc32 s.tty.panicmem (mem, memlen)) → b = s.tty.logbuf ∧ flag = s.flag) ∧
    (s.flag = false → Passes crc32 s.tty.panicmem (mem, memlen) → flag = true ∧
      b.contents = ((s.tty.panicmem.slice (mem + sizeofMem) (intOf (s.tty.panicmem.dword (mem + 28))).toNat).rtake
        (logSize - (announced s.tty.logbuf).contents.length)) ++ (announced s.tty.logbuf).contents)

theorem ttylogCopyFromPanicmemOne_eq (valid : s.tty.logbuf.Valid) (logs : s.tty.logflag = true)
    (room : copyStride < memlen) (inside : mem + memlen ≤ panicmemLen) : CopiedOne crc32 mem memlen s := by
  have shape : copyStride = 69664 := rfl
  have cleared : ∀ (m : Memory) i, mem + sizeofMem ≤ i → m.blit mem sizeofMem (fun _ => 0) i = m i :=
    fun m i above => m.blit_outside _ (.inr above)
  have headerInside : mem + sizeofMem ≤ panicmemLen := by
    simp only [sizeofMem]
    omega
  -- all ways that only clear the header
  have skip : (s.flag = true ∨ ¬Passes crc32 s.tty.panicmem (mem, memlen)) →
      ∀ m : Memory, (∀ i, mem + sizeofMem ≤ i → m i = s.tty.panicmem i) →
      ttylogCopyFromPanicmemOne crc32 mem memlen s = clearHeader mem (s.setPanicmem m) →
      CopiedOne crc32 mem memlen s := by
    intro skips m same eq
    refine ⟨_, s.tty.logbuf, s.flag, eq.trans (clearHeader_eq headerInside), ?_, valid,
      fun _ => ⟨rfl, rfl⟩, ?_⟩
    · intro i above
      exact (cleared m i above).trans (same i above)
    · intro first passes
      rcases skips with found | fails
      · simp [first] at found
      · exact absurd passes fails
  have same : ∀ i, mem + sizeofMem ≤ i → s.tty.panicmem.setDword (mem + 24) 0 i = s.tty.panicmem i := by
    intro i above
    simp only [sizeofMem] at above
    exact setDword_outside _ _ (by omega)
  have size : sizeT ((memlen : Int) - sizeofMem) = memlen - sizeofMem := by
    simp only [sizeT, sizeofMem]
    simp only [panicmemLen] at inside
    omega
  by_cases found : s.flag = true
  · refine skip (.inl found) s.tty.panicmem (fun _ _ => rfl) ?_
    simp only [ttylogCopyFromPanicmemOne, if_pos found]
    rfl
  · by_cases long : sizeT (intOf (s.tty.panicmem.dword (mem + 28))) >
        sizeT ((memlen : Int) - sizeofMem)
    · refine skip (.inr fun passes => ?_) s.tty.panicmem (fun _ _ => rfl) ?_
      · exact absurd passes.1 (Nat.not_le.mpr long)
      · simp only [ttylogCopyFromPanicmemOne, if_neg found, reach_of_le headerInside,
          bind_eq_bind, bind_some, if_pos long]
        rfl
    · -- the length is not negative and the copy ends inside the reserved pages
      have fits : sizeT (intOf (s.tty.panicmem.dword (mem + 28))) ≤ memlen - sizeofMem := by
        rw [size] at long
        exact Nat.not_lt.mp long
      have range : 0 ≤ intOf (s.tty.panicmem.dword (mem + 28)) ∧
          intOf (s.tty.panicmem.dword (mem + 28)) ≤ (memlen - sizeofMem : Nat) := by
        refine copylen_range fits ?_
        simp only [panicmemLen] at inside
        omega
      have crcInside : mem + sizeT ((sizeofMem : Nat) + intOf (s.tty.panicmem.dword (mem + 28))) %
          2 ^ 32 ≤ panicmemLen := by
        generalize intOf (s.tty.panicmem.dword (mem + 28)) = copylen at range
        simp only [sizeT, sizeofMem] at range ⊢
        omega
      by_cases key : s.tty.panicmem.slice mem 24 = panicmemKey
      · by_cases crc : s.tty.panicmem.dword (mem + 24) =
            (crc32 ((s.tty.panicmem.setDword (mem + 24) 0).slice mem
              (sizeT ((sizeofMem : Nat) + intOf (s.tty.panicmem.dword (mem + 28))) % 2 ^ 32))).toNat
        · have passes : Passes crc32 s.tty.panicmem (mem, memlen) :=
            ⟨Nat.not_lt.mp long, key, crc⟩
          have announcedValid := (foldl_put_contents oldLogFound s.tty.logbuf valid).2
          have textInside : mem + sizeofMem + (intOf (s.tty.panicmem.dword (mem + 28))).toNat ≤ panicmemLen := by
            generalize intOf (s.tty.panicmem.dword (mem + 28)) = copylen at range
            simp only [sizeofMem] at range ⊢
            omega
          obtain ⟨b, ran, valid', eq⟩ := @prependLoop_contents
            (s.tty.panicmem.setDword (mem + 24) 0) (mem + sizeofMem)
            (intOf (s.tty.panicmem.dword (mem + 28))).toNat (announced s.tty.logbuf)
            announcedValid textInside
          have text : (s.tty.panicmem.setDword (mem + 24) 0).slice (mem + sizeofMem)
              (intOf (s.tty.panicmem.dword (mem + 28))).toNat =
                s.tty.panicmem.slice (mem + sizeofMem)
                  (intOf (s.tty.panicmem.dword (mem + 28))).toNat :=
            slice_outside fun i low _ => same i low
          have printed : oldLogFound.foldl ttyPutchar
              (s.setPanicmem (s.tty.panicmem.setDword (mem + 24) 0)).tty =
                { s.tty with logbuf := announced s.tty.logbuf,
                             panicmem := s.tty.panicmem.setDword (mem + 24) 0 } := by
            rw [foldl_ttyPutchar oldLogFound (s.setPanicmem (s.tty.panicmem.setDword (mem + 24) 0)).tty logs]
            rfl
          refine ⟨(s.tty.panicmem.setDword (mem + 24) 0).blit mem sizeofMem fun _ => 0, b, true, ?_, ?_, valid', ?_, ?_⟩
          · simp only [ttylogCopyFromPanicmemOne, if_neg found, reach_of_le headerInside,
              bind_eq_bind, bind_some, if_neg long, ne_eq, key, not_true_eq_false,
              if_false, reach_of_le crcInside, ← crc, printed, ran, clearHeader_eq headerInside]
            rfl
          · intro i above
            exact (cleared _ i above).trans (same i above)
          · rintro (first | fails)
            · exact absurd first found
            · exact absurd passes fails
          · intro _ _
            exact ⟨rfl, by rw [eq, text]⟩
        · refine skip (.inr fun passes => crc passes.2.2)
            (s.tty.panicmem.setDword (mem + 24) 0) same ?_
          simp only [ttylogCopyFromPanicmemOne, if_neg found, reach_of_le headerInside,
            bind_eq_bind, bind_some, if_neg long, ne_eq, key, not_true_eq_false,
            if_false, reach_of_le crcInside, crc, not_false_eq_true, if_true]
      · refine skip (.inr fun passes => key passes.2.1) s.tty.panicmem (fun _ _ => rfl) ?_
        simp only [ttylogCopyFromPanicmemOne, if_neg found, reach_of_le headerInside,
          bind_eq_bind, bind_some, if_neg long, if_pos key]
        rfl

theorem passes_congr {place : Nat × Nat} (same : ∀ i, place.1 ≤ i → other i = memory i) :
    Passes crc32 other place ↔ Passes crc32 memory place := by
  have len : other.dword (place.1 + 28) = memory.dword (place.1 + 28) := dword_outside fun i low _ => same i (by omega)
  have key : other.slice place.1 24 = memory.slice place.1 24 := slice_outside fun i low _ => same i low
  have field : other.dword (place.1 + 24) = memory.dword (place.1 + 24) :=
    dword_outside fun i low _ => same i (by omega)
  have bytes : ∀ count, (other.setDword (place.1 + 24) 0).slice place.1 count =
      (memory.setDword (place.1 + 24) 0).slice place.1 count := by
    intro count
    apply slice_outside
    intro i low _
    exact memory.setDword_congr 0 fun _ => same i low
  simp only [Passes, len, key, field, bytes]

theorem IsCopy.passes (copy : IsCopy crc32 memory mem text) (small : text.length ≤ logSize)
    (room : copyStride < memlen) (inside : memlen ≤ panicmemLen) :
    Passes crc32 memory (mem, memlen) ∧ (intOf (memory.dword (mem + 28))).toNat = text.length := by
  simp only [logSize] at small
  simp only [copyStride, sizeofLogbuf, sizeofMem] at room
  simp only [panicmemLen] at inside
  have len : intOf (memory.dword (mem + 28)) = text.length := by
    rw [copy.len]
    exact intOf_small (by omega)
  have crclen : sizeT ((sizeofMem : Nat) + (text.length : Int)) % 2 ^ 32 = sizeofMem + text.length := by
    simp only [sizeT, sizeofMem]
    omega
  refine ⟨⟨?_, copy.key, ?_⟩, by rw [len, Int.toNat_natCast]⟩
  · rw [len]
    simp only [sizeT, sizeofMem]
    omega
  · rw [len, crclen]
    exact copy.crc

theorem copyPlaces_bounds : ∀ (mem memlen : Nat), ∀ place ∈ copyPlaces mem memlen,
    mem ≤ place.1 ∧ copyStride < place.2 ∧ place.1 + place.2 = mem + memlen := by
  intro mem memlen
  induction mem, memlen using copyPlaces.induct with
  | case1 mem memlen room ih =>
    intro place member
    rw [copyPlaces, if_pos room] at member
    rcases mem_cons.mp member with rfl | later
    · exact ⟨le_refl _, room, rfl⟩
    · obtain ⟨low, inside, ends⟩ := ih place later
      exact ⟨by omega, inside, by omega⟩
  | case2 mem memlen full =>
    intro place member
    rw [copyPlaces, if_neg full] at member
    cases member

theorem ttylogCopyFromPanicmem_loop : ∀ (mem memlen : Nat) (s : CopyState), s.tty.logbuf.Valid →
    s.tty.logflag = true → mem + memlen ≤ panicmemLen → ∃ after,
      ttylogCopyPanicmemLoop (ttylogCopyFromPanicmemOne crc32) mem memlen s = some after ∧
      (s.flag = true → after.tty.logbuf = s.tty.logbuf) := by
  intro mem memlen
  induction mem, memlen using copyPlaces.induct with
  | case1 mem memlen room ih =>
    intro s valid logs inside
    obtain ⟨panicmem, b, flag, ran, _, valid', skips, _⟩ :=
      @ttylogCopyFromPanicmemOne_eq crc32 mem memlen s valid logs room inside
    obtain ⟨after, rest, stays⟩ := ih
      { tty := { s.tty with logbuf := b, panicmem := panicmem }, flag := flag } valid' logs (by omega)
    rw [ttylogCopyPanicmemLoop, if_pos room, ran, bind_eq_bind, bind_some]
    refine ⟨after, rest, fun found => ?_⟩
    obtain ⟨sameLog, sameFlag⟩ := skips (.inl found)
    rw [stays (sameFlag.trans found)]
    exact sameLog
  | case2 mem memlen full =>
    intro s _ _ _
    exact ⟨s, by rw [ttylogCopyPanicmemLoop, if_neg full], fun _ => rfl⟩

theorem ttylogCopyFromPanicmem_first (small : text.length ≤ logSize) :
    ∀ (mem memlen : Nat) (s : CopyState), s.tty.logbuf.Valid → s.tty.logflag = true →
    mem + memlen ≤ panicmemLen → s.flag = false →
    (∀ place ∈ copyPlaces mem memlen, IsCopy crc32 s.tty.panicmem place.1 text ∨ ¬Passes crc32 s.tty.panicmem place) →
    (∃ place ∈ copyPlaces mem memlen, IsCopy crc32 s.tty.panicmem place.1 text) → ∃ after,
      ttylogCopyPanicmemLoop (ttylogCopyFromPanicmemOne crc32) mem memlen s = some after ∧
      after.tty.logbuf.contents =
        text.rtake (logSize - (announced s.tty.logbuf).contents.length) ++ (announced s.tty.logbuf).contents := by
  intro mem memlen
  induction mem, memlen using copyPlaces.induct with
  | case1 mem memlen room ih =>
    intro s valid logs inside first intactOrNot someIntact
    have shape : copyStride = 69664 := rfl
    obtain ⟨panicmem, b, flag, ran, same, valid', skips, finds⟩ :=
      @ttylogCopyFromPanicmemOne_eq crc32 mem memlen s valid logs room inside
    rw [ttylogCopyPanicmemLoop, if_pos room, ran, bind_eq_bind, bind_some]
    rw [copyPlaces, if_pos room] at intactOrNot someIntact
    by_cases passes : Passes crc32 s.tty.panicmem (mem, memlen)
    · -- the first copy that passes is an intact one; the rest is skipped
      have copy : IsCopy crc32 s.tty.panicmem mem text := by
        rcases intactOrNot (mem, memlen) mem_cons_self with copy | fails
        · exact copy
        · exact absurd passes fails
      obtain ⟨flagged, contents⟩ := finds first passes
      obtain ⟨after, rest, stays⟩ := @ttylogCopyFromPanicmem_loop crc32 (mem + copyStride)
        (memlen - copyStride)
        { tty := { s.tty with logbuf := b, panicmem := panicmem }, flag := flag } valid' logs
        (by omega)
      refine ⟨after, rest, ?_⟩
      rw [stays flagged, contents, (copy.passes small room (by omega)).2, copy.buf]
    · obtain ⟨sameLog, sameFlag⟩ := skips (.inr passes)
      have later : ∀ place ∈ copyPlaces (mem + copyStride) (memlen - copyStride),
          ∀ i, place.1 ≤ i → panicmem i = s.tty.panicmem i := by
        intro place member i low
        have bound := (copyPlaces_bounds _ _ place member).1
        exact same i (by simp only [sizeofMem]; omega)
      obtain ⟨after, rest, contents⟩ := ih
        { tty := { s.tty with logbuf := b, panicmem := panicmem }, flag := flag } valid' logs
        (by omega) (sameFlag.trans first) (by
          intro place member
          rcases intactOrNot place (mem_cons_of_mem _ member) with copy | fails
          · exact .inl (copy.congr fun i low _ => later place member i low)
          · exact .inr fun again => fails ((passes_congr (later place member)).mp again)) (by
          obtain ⟨place, member, copy⟩ := someIntact
          rcases mem_cons.mp member with rfl | tail
          · exact absurd (copy.passes small room (by omega)).1 passes
          · exact ⟨place, tail, copy.congr fun i low _ => later place tail i low⟩)
      refine ⟨after, rest, ?_⟩
      rw [contents]
      simp only [sameLog]
  | case2 mem memlen full =>
    intro s _ _ _ _ _ someIntact
    rw [copyPlaces, if_neg full] at someIntact
    obtain ⟨place, member, _⟩ := someIntact
    cases member

theorem ttyInitGlobal_foldl (ring : Fin logSize → UInt8) (page : Nat) (cs : List UInt8) :
    (cs.foldl ttyPutchar (ttyInitGlobal ring memory page)).logbuf.contents = cs.rtake logSize ∧
      (cs.foldl ttyPutchar (ttyInitGlobal ring memory page)).logbuf.Valid ∧
      (cs.foldl ttyPutchar (ttyInitGlobal ring memory page)).logflag = true ∧
      (cs.foldl ttyPutchar (ttyInitGlobal ring memory page)).panicmem = memory ∧
      (cs.foldl ttyPutchar (ttyInitGlobal ring memory page)).panicmemStartPage = page := by
  have empty : (ttyInitGlobal ring memory page).logbuf.Valid := Nat.zero_le _
  rw [foldl_ttyPutchar cs _ rfl]
  obtain ⟨contents, valid⟩ := foldl_put_contents cs (ttyInitGlobal ring memory page).logbuf empty
  exact ⟨contents, valid, rfl, rfl, rfl⟩

theorem length_rtake_le (n : Nat) (bytes : List UInt8) : (bytes.rtake n).length ≤ n := by
  rw [List.rtake, length_drop]
  omega

/-- The bytes of a stored copy of a log of `len` bytes are still there. -/
def Untouched (stored found : Memory) (len : Nat) (place : Nat × Nat) : Prop :=
  ∀ i, place.1 ≤ i → i < place.1 + sizeofMem + len → found i = stored i

/-- When each copy is intact or fails a check and one is intact, the recovered log is the longest
suffix of the old log that fits, followed by the log of the fresh run; and whatever the
reserved pages hold, the recovery stays inside them. -/
theorem panic_log_recovered (crc32 : List UInt8 → UInt32) (ring freshRing : Fin logSize → UInt8)
    (memory : Memory) (old own : List UInt8) {page freshPage : Nat} (reserved : page ≠ 0)
    (freshReserved : freshPage ≠ 0) :
    (∃ stored, ttylogCopyToPanicmem crc32
        (old.foldl ttyPutchar (ttyInitGlobal ring memory page)) = some stored ∧
      ∀ found : Memory,
        (∀ place ∈ copyPlaces 0 panicmemLen,
          Untouched stored.panicmem found (old.rtake logSize).length place ∨
            ¬Passes crc32 found place) →
        (∃ place ∈ copyPlaces 0 panicmemLen, Untouched stored.panicmem found (old.rtake logSize).length place) →
        ∃ after, ttylogCopyFromPanicmem crc32
            (own.foldl ttyPutchar (ttyInitGlobal freshRing found freshPage)) = some after ∧
          after.logbuf.contents =
            (old.rtake logSize).rtake (logSize - ((own ++ oldLogFound).rtake logSize).length) ++
              (own ++ oldLogFound).rtake logSize) ∧
      ∀ found : Memory, ∃ after, ttylogCopyFromPanicmem crc32
        (own.foldl ttyPutchar (ttyInitGlobal freshRing found freshPage)) = some after := by
  constructor
  · obtain ⟨contents, valid, _, _, pages⟩ := @ttyInitGlobal_foldl memory ring page old
    generalize old.foldl ttyPutchar (ttyInitGlobal ring memory page) = before
      at contents valid pages ⊢
    obtain ⟨stored, ran, _, copies⟩ := @ttylogCopyToPanicmem_loop crc32 0 panicmemLen
      { tty := before, flag := false } valid (by omega)
    refine ⟨{ before with panicmem := stored }, ?_, ?_⟩
    · rw [ttylogCopyToPanicmem, ttylogCopyPanicmem, if_neg (by rwa [pages]), ran]
      rfl
    · intro found eachCopy someCopy
      obtain ⟨contents', valid', logs, mem, pages'⟩ := @ttyInitGlobal_foldl found freshRing freshPage own
      generalize own.foldl ttyPutchar (ttyInitGlobal freshRing found freshPage) = fresh
        at contents' valid' logs mem pages' ⊢
      simp only [contents] at copies
      have intact : ∀ place ∈ copyPlaces 0 panicmemLen,
          Untouched stored found (old.rtake logSize).length place →
            IsCopy crc32 fresh.panicmem place.1 (old.rtake logSize) := by
        intro place member untouched
        rw [mem]
        exact (copies place member).congr untouched
      obtain ⟨after, ran', log⟩ := ttylogCopyFromPanicmem_first (length_rtake_le _ old) 0
        panicmemLen { tty := fresh, flag := false } valid' logs (by omega) rfl
        (by
          intro place member
          rcases eachCopy place member with untouched | fails
          · exact .inl (intact place member untouched)
          · exact .inr (by rwa [mem]))
        (by
          obtain ⟨place, member, untouched⟩ := someCopy
          exact ⟨place, member, intact place member untouched⟩)
      have own_log : (announced fresh.logbuf).contents = (own ++ oldLogFound).rtake logSize := by
        rw [announced, (foldl_put_contents oldLogFound fresh.logbuf valid').1, contents', rtake_append_rtake]
      refine ⟨after.tty, ?_, ?_⟩
      · rw [ttylogCopyFromPanicmem, ttylogCopyPanicmem, if_neg (by rwa [pages']), ran']
        rfl
      · rw [log, own_log]
  · intro found
    obtain ⟨_, valid, logs, _, pages⟩ := @ttyInitGlobal_foldl found freshRing freshPage own
    obtain ⟨after, ran, _⟩ := @ttylogCopyFromPanicmem_loop crc32 0 panicmemLen
      { tty := own.foldl ttyPutchar (ttyInitGlobal freshRing found freshPage), flag := false } valid
      logs (by omega)
    refine ⟨after.tty, ?_⟩
    rw [ttylogCopyFromPanicmem, ttylogCopyPanicmem, if_neg (by rwa [pages]), ran]
    rfl

/-- Two bytes come back in front of the message when all copies are intact. -/
theorem panic_log_recovered_two : ∃ stored found after,
    ttylogCopyToPanicmem (fun bytes => bytes.length.toUInt32)
      ([79, 75].foldl ttyPutchar (ttyInitGlobal (fun _ => 0) (fun _ => 0) 1)) = some stored ∧
    ttylogCopyFromPanicmem (fun bytes => bytes.length.toUInt32)
      ([].foldl ttyPutchar (ttyInitGlobal (fun _ => 0) found 1)) = some after ∧
    after.logbuf.contents = [79, 75] ++ oldLogFound := by
  obtain ⟨⟨stored, wrote, recovers⟩, _⟩ := panic_log_recovered
    (fun bytes => bytes.length.toUInt32) (fun _ => 0) (fun _ => 0) (fun _ => 0) [79, 75] []
    (by decide : 1 ≠ 0) (by decide : 1 ≠ 0)
  have first : (0, panicmemLen) ∈ copyPlaces 0 panicmemLen := by
    rw [copyPlaces, if_pos (by decide)]
    exact mem_cons_self
  obtain ⟨after, ran, log⟩ := recovers stored.panicmem (fun _ _ => .inl fun _ _ _ => rfl) ⟨_, first, fun _ _ _ => rfl⟩
  exact ⟨stored, stored.panicmem, after, wrote, ran, log.trans (by decide)⟩

end DisasVisor.Tty
