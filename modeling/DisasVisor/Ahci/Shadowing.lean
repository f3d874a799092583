import DisasVisor.Ahci.Commands
import DisasVisor.Lib.Loops
import DisasVisor.Lib.Transitions
import DisasVisor.Storage.Disk

/-!
Which guests get the handler of an AHCI controller to an `ASSERT` of `ahci_cmd_start`, `ahci_cmd_complete` or
`ahci_copy_dmabuf`. Between two accesses the memory of the guest may become any other.
-/

namespace DisasVisor.Ahci

open Function DisasVisor.Storage DisasVisor.Ata Loops Transitions List

variable {κ : Type} {port after : Port κ} {memory other : Memory} {i : SlotNo} {table : Nat} {buf : List UInt8}

def Elsewhere (stop : Stop) : Prop := stop ≠ .assertion ∧ stop ≠ .outside

theorem elsewhere_hook : Elsewhere .hook := ⟨nofun, nofun⟩

theorem elsewhere_register : Elsewhere .register := ⟨nofun, nofun⟩

def prdtBytes (memory : Memory) (table prdtl : Nat) : Nat :=
  ((List.range prdtl).map fun k => (guestPrd memory table k).size).sum

namespace Port

def header (port : Port κ) (memory : Memory) (i : SlotNo) : CommandHeader := guestHeader memory port.list i

def Describes (port : Port κ) (memory : Memory) (i : SlotNo) (address : Nat) : Prop :=
  (port.list + 32 * i.val ≤ address ∧ address < port.list + 32 * i.val + 4) ∨
    (port.list + 32 * i.val + 8 ≤ address ∧ address < port.list + 32 * i.val + 16) ∨
      ∃ k < (port.header memory i).prdtl, (port.header memory i).table + 0x80 + 16 * k ≤ address ∧
        address < (port.header memory i).table + 0x80 + 16 * k + 16

def Fills (port : Port κ) (memory : Memory) (i : SlotNo) (address : Nat) : Prop :=
  (port.list + 32 * i.val + 4 ≤ address ∧ address < port.list + 32 * i.val + 8) ∨
    (port.mycmdlist i).w = false ∧ ∃ k < (port.header memory i).prdtl,
      (guestPrd memory (port.header memory i).table k).address ≤ address ∧
        address < (guestPrd memory (port.header memory i).table k).address +
          (guestPrd memory (port.header memory i).table k).size

def Agrees (port : Port κ) (memory : Memory) (i : SlotNo) : Prop :=
  if (port.header memory i).prdtl = 0 then (port.my i).dmabuf = none
  else (port.mycmdlist i).w = false → (port.my i).dmabuf ≠ none ∧
    prdtBytes memory (port.header memory i).table (port.header memory i).prdtl = (port.my i).dmabuflen

def Valid (port : Port κ) (memory : Memory) (i : SlotNo) : Prop :=
  prdtBytes memory (port.header memory i).table (port.header memory i).prdtl ≤ dmabufMax

/-- `bits` are the slots whose commands are outstanding: no others have a buffer, and that for a read is as long
as was recorded. -/
structure Sound (bits : SlotNo → Bool) (port : Port κ) : Prop where
  sized : ∀ i buf, (port.my i).dmabuf = some buf → (port.mycmdlist i).w = false → buf.length = (port.my i).dmabuflen
  owned : ∀ i, (port.my i).dmabuf ≠ none → bits i = true
  fresh : port.storageDevice = none → ∀ i, bits i = false
  keeps : ∀ keys, port.storageDevice = some keys → KeepsLength keys
  keepsAhci : KeepsLength port.ahciKeys
  keepsAtapi : KeepsLength port.atapiKeys

structure Beside (port after : Port κ) (i : SlotNo) : Prop where
  list : after.list = port.list
  device : after.storageDevice.isSome = port.storageDevice.isSome
  my : ∀ j ≠ i, after.my j = port.my j
  headers : ∀ j ≠ i, after.mycmdlist j = port.mycmdlist j

structure Handled (port after : Port κ) (i : SlotNo) : Prop extends Beside port after i where
  mycmdlist : after.mycmdlist = port.mycmdlist
  shadowbit : after.shadowbit = port.shadowbit
  dmabuflen : (after.my i).dmabuflen = (port.my i).dmabuflen
  dmabuf : (after.my i).dmabuf.map List.length = (port.my i).dmabuf.map List.length
  keeps : ∀ keys, after.storageDevice = some keys → KeepsLength keys
  ahciKeys : after.ahciKeys = port.ahciKeys
  atapiKeys : after.atapiKeys = port.atapiKeys

end Port

/-! Memory that still says the same -/

theorem guestPrd_congr (k : Nat)
    (same : ∀ a, table + 0x80 + 16 * k ≤ a → a < table + 0x80 + 16 * k + 16 → other a = memory a) :
    guestPrd other table k = guestPrd memory table k := by
  have word (offset : Nat) (inside : offset ≤ 12) : other.dword (table + 0x80 + 16 * k + offset) =
      memory.dword (table + 0x80 + 16 * k + offset) :=
    other.dword_congr fun byte less => same _ (by omega) (by omega)
  have first := word 0 (by omega)
  rw [Nat.add_zero] at first
  simp only [guestPrd, first, word 4 (by omega), word 12 (by omega)]

theorem prdtBytes_congr {prdtl : Nat} (same : ∀ k < prdtl, guestPrd other table k = guestPrd memory table k) :
    prdtBytes other table prdtl = prdtBytes memory table prdtl := by
  unfold prdtBytes
  congr 1
  apply map_congr_left
  intro k member
  rw [same k (mem_range.mp member)]

section

variable (same : ∀ a, port.Describes memory i a → other a = memory a)
include same

theorem Port.header_congr :
    (port.header other i).prdtl = (port.header memory i).prdtl ∧
      (port.header other i).table = (port.header memory i).table := by
  have first : other.dword (port.list + 32 * i.val) = memory.dword (port.list + 32 * i.val) :=
    other.dword_congr fun byte less => same _ (.inl (by omega))
  have lower : other.dword (port.list + 32 * i.val + 8) = memory.dword (port.list + 32 * i.val + 8) :=
    other.dword_congr fun byte less => same _ (.inr (.inl (by omega)))
  have upper : other.dword (port.list + 32 * i.val + 12) = memory.dword (port.list + 32 * i.val + 12) :=
    other.dword_congr fun byte less => same _ (.inr (.inl (by omega)))
  simp only [header, guestHeader, CommandHeader.table, first, lower, upper, and_self]

theorem Port.prds_congr {k : Nat} (less : k < (port.header memory i).prdtl) :
    guestPrd other (port.header memory i).table k = guestPrd memory (port.header memory i).table k :=
  guestPrd_congr k fun _ above below => same _ (.inr (.inr ⟨k, less, above, below⟩))

end

theorem Port.Agrees.congr (agrees : port.Agrees memory i) (list : after.list = port.list)
    (my : after.my i = port.my i) (header : after.mycmdlist i = port.mycmdlist i)
    (same : ∀ a, port.Describes memory i a → other a = memory a) : after.Agrees other i := by
  have is : after.header other i = port.header other i := by rw [Port.header, Port.header, list]
  obtain ⟨prdtl, base⟩ := Port.header_congr same
  unfold Agrees at agrees ⊢
  rw [is, prdtl, base, my, header, prdtBytes_congr fun k less => Port.prds_congr same less]
  exact agrees

/-! Copying -/

theorem ahciGetDmalen_eq (memory : Memory) (table prdtl : Nat) :
    (ahciGetDmalen memory table prdtl).1 = prdtBytes memory table prdtl % 2 ^ 32 := by
  have sums (ks : List Nat) : ∀ total, total < 2 ^ 32 →
      ks.foldl (fun total k => (total + (guestPrd memory table k).size) % 2 ^ 32) total =
        (total + (ks.map fun k => (guestPrd memory table k).size).sum) % 2 ^ 32 := by
    induction ks with
    | nil =>
      intro total small
      exact (Nat.mod_eq_of_lt small).symm
    | cons k ks ih =>
      intro total small
      rw [foldl_cons, ih _ (Nat.mod_lt _ (by decide)), map_cons, sum_cons]
      omega
  have whole := sums (List.range prdtl) 0 (by decide)
  rwa [Nat.zero_add] at whole

theorem copyFromGuest_upholds (ks : List Nat) : ∀ {offset remain buf},
    (ks.map fun k => (guestPrd memory table k).size).sum = remain → offset + remain = buf.length →
      Upholds Elsewhere (fun out => out.length = buf.length) (copyFromGuest memory table ks offset remain buf) := by
  induction ks with
  | nil =>
    intro offset remain buf sum bound
    rw [copyFromGuest, if_pos (show remain = 0 from sum.symm)]
    rfl
  | cons k ks ih =>
    intro offset remain buf sum bound
    rw [map_cons, sum_cons] at sum
    rw [copyFromGuest, if_neg (by omega)]
    have fits : offset + (memory.slice (guestPrd memory table k).address
        (guestPrd memory table k).size).length ≤ buf.length := by
      rw [Memory.length_slice]
      omega
    rw [overwrite, if_pos fits]
    dsimp only
    generalize replaced : List.take offset buf ++ _ ++ _ = next
    have length : next.length = buf.length := by
      rw [← replaced]
      simp only [length_append, length_take, length_drop, Memory.length_slice] at fits ⊢
      omega
    rw [← length]
    exact ih (by omega) (by omega)

variable {filled : Nat → Prop} {slot : Slot} {value : UInt32}

theorem copyToGuest_upholds (ks : List Nat)
    (prds : ∀ k ∈ ks, ∀ a, table + 0x80 + 16 * k ≤ a → a < table + 0x80 + 16 * k + 16 → ¬ filled a)
    (fills : ∀ k ∈ ks, ∀ a, (guestPrd memory table k).address ≤ a →
      a < (guestPrd memory table k).address + (guestPrd memory table k).size → filled a) :
    ∀ {offset remain other}, (∀ a, ¬ filled a → other a = memory a) →
      (ks.map fun k => (guestPrd memory table k).size).sum = remain → offset + remain = buf.length →
        Upholds Elsewhere (fun out => ∀ a, ¬ filled a → out a = memory a)
          (copyToGuest table buf ks offset remain other) := by
  induction ks with
  | nil =>
    intro offset remain other same sum bound
    rw [copyToGuest, if_pos (show remain = 0 from sum.symm)]
    exact same
  | cons k ks ih =>
    intro offset remain other same sum bound
    rw [map_cons, sum_cons] at sum
    have prd : guestPrd other table k = guestPrd memory table k :=
      guestPrd_congr k fun a above below => same a (prds k mem_cons_self a above below)
    rw [copyToGuest, prd, if_neg (by omega), if_neg (by omega)]
    apply ih (fun k member => prds k (mem_cons_of_mem _ member))
      (fun k member => fills k (mem_cons_of_mem _ member)) _ (by omega) (by omega)
    intro a unfilled
    refine (other.blit_outside _ ?_).trans (same a unfilled)
    have short : ((buf.drop offset).take (guestPrd memory table k).size).length ≤ (guestPrd memory table k).size :=
      length_take_le _ _
    by_contra inside
    exact unfilled (fills k mem_cons_self a (by omega) (by omega))

/-! Handling of commands -/

namespace Port

variable {bits : SlotNo → Bool}

theorem Handled.sound (handled : Handled port after i) (sound : Sound bits port) : Sound bits after where
  sized := by
    intro j buf is read
    rw [handled.mycmdlist] at read
    by_cases same : j = i
    · subst same
      have lengths := handled.dmabuf
      rw [is, Option.map_some, eq_comm, Option.map_eq_some_iff] at lengths
      obtain ⟨before, was, length⟩ := lengths
      rw [handled.dmabuflen, ← length]
      exact sound.sized j before was read
    · rw [handled.my j same] at is ⊢
      exact sound.sized j buf is read
  owned := by
    intro j has
    by_cases same : j = i
    · subst same
      refine sound.owned j fun none => has ?_
      have lengths := handled.dmabuf
      rwa [none, Option.map_none, Option.map_eq_none_iff] at lengths
    · rw [handled.my j same] at has
      exact sound.owned j has
  fresh := by
    intro none
    refine sound.fresh ?_
    have device := handled.device
    rw [none] at device
    simpa using device.symm
  keeps := handled.keeps
  keepsAhci := handled.ahciKeys ▸ sound.keepsAhci
  keepsAtapi := handled.atapiKeys ▸ sound.keepsAtapi

theorem setSlot_self (slot : Slot) : (port.setSlot i slot).my i = slot := update_self ..

theorem handled_setSlot (sound : Sound bits port) (len : slot.dmabuflen = (port.my i).dmabuflen)
    (dmabuf : slot.dmabuf.map List.length = (port.my i).dmabuf.map List.length) :
    Handled port (port.setSlot i slot) i where
  list := rfl
  device := rfl
  my := fun j other => update_of_ne other _ _
  headers := fun _ _ => rfl
  mycmdlist := rfl
  shadowbit := rfl
  dmabuflen := by
    rw [setSlot_self]
    exact len
  dmabuf := by
    rw [setSlot_self]
    exact dmabuf
  keeps := sound.keeps
  ahciKeys := rfl
  atapiKeys := rfl

theorem handled_refl (sound : Sound bits port) : Handled port port i :=
  ⟨⟨rfl, rfl, fun _ _ => rfl, fun _ _ => rfl⟩, rfl, rfl, rfl, rfl, sound.keeps, rfl, rfl⟩

theorem Handled.trans {middle : Port κ} (first : Handled port middle i) (second : Handled middle after i) :
    Handled port after i where
  list := second.list.trans first.list
  device := second.device.trans first.device
  my := fun j other => (second.my j other).trans (first.my j other)
  headers := fun j other => (second.headers j other).trans (first.headers j other)
  mycmdlist := second.mycmdlist.trans first.mycmdlist
  shadowbit := second.shadowbit.trans first.shadowbit
  dmabuflen := second.dmabuflen.trans first.dmabuflen
  dmabuf := second.dmabuf.trans first.dmabuf
  keeps := second.keeps
  ahciKeys := second.ahciKeys.trans first.ahciKeys
  atapiKeys := second.atapiKeys.trans first.atapiKeys

theorem handleSectors_upholds (sound : Sound bits port) (write : Bool) :
    Upholds Elsewhere (fun after => Handled port after i) (port.handleSectors i write) := by
  unfold handleSectors
  dsimp only
  split
  · rename_i keys buf device is
    split
    · rename_i out handles
      refine handled_setSlot sound rfl ?_
      rw [is, Option.map_some, Option.map_some, storageHandleSectors_length (sound.keeps keys device) handles]
    · exact elsewhere_hook
  · exact elsewhere_hook

end Port

namespace Slot

def SameBuffer (slot handled : Slot) : Prop := handled.dmabuf = slot.dmabuf ∧ handled.dmabuflen = slot.dmabuflen

theorem ahciCmdHandler_upholds (slot : Slot) (w : Bool) (cfis : CmdFis) :
    Upholds Elsewhere (SameBuffer slot) (slot.ahciCmdHandler w cfis) := by
  have dma (rw ext : Bool) : Upholds Elsewhere (SameBuffer slot) (slot.ahciHandleCmdRwDma w cfis rw ext) := by
    unfold ahciHandleCmdRwDma
    split
    · exact elsewhere_hook
    · split
      · exact ⟨rfl, rfl⟩
      · exact ⟨rfl, rfl⟩
  have ncq (rw : Bool) : Upholds Elsewhere (SameBuffer slot) (slot.ahciHandleCmdRwNcq w cfis rw) := by
    unfold ahciHandleCmdRwNcq
    split
    · exact elsewhere_hook
    · exact ⟨rfl, rfl⟩
  unfold ahciCmdHandler
  dsimp only
  cases (ataGetCmdType cfis.command).cls with
  | nondata | devparam | through | identify => exact ⟨rfl, rfl⟩
  | pio | dma => exact dma _ _
  | ncq => exact ncq _
  | invalid | dmq | packet | service => exact elsewhere_hook

theorem ahciHandlePacket_upholds (slot : Slot) (acmd : List UInt8) :
    Upholds Elsewhere (SameBuffer slot) (slot.ahciHandlePacket acmd) := by
  unfold ahciHandlePacket
  dsimp only
  split_ifs
  · exact elsewhere_hook
  · exact ⟨rfl, rfl⟩
  · exact ⟨rfl, rfl⟩

end Slot

namespace Port

variable {bits : SlotNo → Bool}

theorem ahciCmdPrehook_upholds (sound : Sound bits port) :
    Upholds Elsewhere (fun after => Handled port after i) (port.ahciCmdPrehook i) := by
  unfold ahciCmdPrehook
  dsimp only
  split
  · exact elsewhere_hook
  · have goesOn (handled : Slot) (same : (port.my i).SameBuffer handled) :
        Upholds Elsewhere (fun after => Handled port after i)
          (if handled.dmabufRwflag ∧ (port.mycmdlist i).w then (port.setSlot i handled).handleSectors i true
          else pure (port.setSlot i handled)) := by
      have set : Handled port (port.setSlot i handled) i :=
        handled_setSlot sound same.2 (congrArg (Option.map List.length) same.1)
      split
      · exact (handleSectors_upholds (set.sound sound) true).mono fun after => set.trans
      · exact set
    split
    · split
      · exact elsewhere_hook
      · exact ((port.my i).ahciHandlePacket_upholds _).bind goesOn
    · refine ((port.my i).ahciCmdHandler_upholds _ _).bind ?_
      intro handled same
      split
      · exact elsewhere_hook
      · exact goesOn handled same

theorem ahciCmdPosthook_upholds (sound : Sound bits port) (device : port.storageDevice.isSome = true) :
    Upholds Elsewhere (fun after => Handled port after i) (port.ahciCmdPosthook i) := by
  unfold ahciCmdPosthook
  split
  · unfold ahciIdentityCheck
    split
    · split
      · exact { handled_refl sound with
          device := device.symm
          keeps := fun keys is => Option.some.inj is ▸ sound.keepsAtapi }
      · exact handled_refl sound
    · exact elsewhere_hook
  · exact handled_refl sound
  · split
    · exact handled_refl sound
    · split
      · exact handled_refl sound
      · exact handleSectors_upholds sound false

/-! One slot -/

theorem setHeader_of_ne {j : SlotNo} (other : j ≠ i) (header : CommandHeader) :
    (port.setHeader i header).mycmdlist j = port.mycmdlist j := update_of_ne other _ _

theorem setHeader_self (header : CommandHeader) : (port.setHeader i header).mycmdlist i = header := update_self ..

theorem setSlot_of_ne {j : SlotNo} (other : j ≠ i) (slot : Slot) : (port.setSlot i slot).my j = port.my j :=
  update_of_ne other _ _

theorem Sound.fill (sound : Sound port.shadowbit port) (device : port.storageDevice.isSome = true) (i : SlotNo)
    {header : CommandHeader} (sized : ∀ buf, slot.dmabuf = some buf → header.w = false → buf.length = slot.dmabuflen) :
    Sound (update port.shadowbit i true) ((port.setHeader i header).setSlot i slot) where
  sized := by
    intro j buf is read
    by_cases same : j = i
    · subst same
      rw [setSlot_self] at is ⊢
      refine sized buf is ?_
      exact @setHeader_self κ port j header ▸ read
    · rw [setSlot_of_ne same] at is ⊢
      refine sound.sized j buf is ?_
      exact @setHeader_of_ne κ port i j same header ▸ read
  owned := by
    intro j has
    by_cases same : j = i
    · rw [same, update_self]
    · rw [setSlot_of_ne same] at has
      rw [update_of_ne same]
      exact sound.owned j has
  fresh := by
    intro absent
    rw [show port.storageDevice = none from absent] at device
    cases device
  keeps := sound.keeps
  keepsAhci := sound.keepsAhci
  keepsAtapi := sound.keepsAtapi

theorem fillSlot_upholds {block : Block} (sound : Sound port.shadowbit port) (device : port.storageDevice.isSome = true)
    (free : port.shadowbit i = false) (valid : port.Valid memory i) :
    Upholds Elsewhere (fun after => Sound (update port.shadowbit i true) after ∧ Beside port after i ∧
      after.shadowbit = port.shadowbit) (fillSlot memory block port i) := by
  have unowned : (port.my i).dmabuf = none := by
    by_contra has
    rw [sound.owned i has] at free
    cases free
  have unset : ¬ (port.my i).dmabuf.isSome = true := by simp [unowned]
  unfold fillSlot
  dsimp only
  split
  · have filled : Sound _ ((port.setHeader i (port.header memory i)).setSlot i (port.my i)) :=
      sound.fill device i fun buf is => by
        rw [unowned] at is
        cases is
    refine ⟨?_, ⟨rfl, rfl, fun _ _ => rfl, fun j other => setHeader_of_ne other _⟩, rfl⟩
    rwa [setSlot, show (port.setHeader i (port.header memory i)).my = port.my from rfl, Function.update_eq_self] at filled
  · have total : (ahciGetDmalen memory (port.header memory i).table (port.header memory i).prdtl).1 =
        prdtBytes memory (port.header memory i).table (port.header memory i).prdtl := by
      rw [ahciGetDmalen_eq]
      exact Nat.mod_eq_of_lt (Nat.lt_of_le_of_lt valid (by decide))
    have prehooks (header : CommandHeader) (slot : Slot)
        (sized : ∀ buf, slot.dmabuf = some buf → header.w = false → buf.length = slot.dmabuflen) :
        Upholds Elsewhere (fun after => Sound (update port.shadowbit i true) after ∧ Beside port after i ∧
          after.shadowbit = port.shadowbit) (((port.setHeader i header).setSlot i slot).ahciCmdPrehook i) := by
      have filled := sound.fill device i sized
      refine (ahciCmdPrehook_upholds filled).mono fun after handled => ⟨handled.sound filled, ?_, handled.shadowbit⟩
      exact ⟨handled.list, handled.device, fun j other => (handled.my j other).trans (setSlot_of_ne other slot),
        fun j other => (handled.headers j other).trans (setHeader_of_ne other header)⟩
    rw [if_neg (by rw [← header, total]; exact Nat.not_lt.mpr valid)]
    split
    · rename_i write
      have copies := @copyFromGuest_upholds memory (port.header memory i).table (List.range (port.header memory i).prdtl)
        0 _ ((List.range _).map block.byte) total.symm (by rw [length_map, length_range, Nat.zero_add])
      refine copies.bind fun buf _ => prehooks _ _ ?_
      intro _ _ read
      cases write.symm.trans read
    · refine prehooks _ _ ?_
      intro buf is _
      cases is
      rw [length_map, length_range]

end Port

namespace Port

theorem ahciCmdStart_upholds {blocks : SlotNo → Block} (sound : Sound port.shadowbit port)
    (device : port.storageDevice.isSome = true) (free : ∀ i, slotBit value i = true → port.shadowbit i = false)
    (valid : ∀ i, slotBit value i = true → port.Valid memory i) :
    Upholds Elsewhere (fun after => Sound after.shadowbit after) (ahciCmdStart memory blocks port value) := by
  have loop := @upholds_foldlM SlotNo (Port κ) Stop Elsewhere
    (fun port i => if slotBit value i then startSlot memory (blocks i) port i else pure port)
    (fun is after => Sound after.shadowbit after ∧ after.list = port.list ∧ after.storageDevice.isSome = true ∧
      is.Nodup ∧ ∀ j ∈ is, slotBit value j = true → after.shadowbit j = false) ?_ (List.finRange 32) port
    ⟨sound, rfl, device, nodup_finRange 32, fun j _ => free j⟩
  · exact loop.mono fun after inv => inv.1
  · rintro i is before ⟨sound, list, device, distinct, free⟩
    obtain ⟨fresh, distinct⟩ := nodup_cons.mp distinct
    split
    · rename_i named
      have validHere : before.Valid memory i := by
        unfold Valid header
        rw [list]
        exact valid i named
      refine (fillSlot_upholds sound device (free i mem_cons_self named) validHere).bind ?_
      rintro after ⟨filled, beside, bits⟩
      rw [if_neg (by rw [bits, free i mem_cons_self named]; exact Bool.false_ne_true)]
      have same : (after.setShadowbit i true).shadowbit = update before.shadowbit i true := by rw [setShadowbit, bits]
      refine ⟨?_, beside.list.trans list, beside.device.trans device, distinct, ?_⟩
      · rw [same]
        exact { filled with }
      · intro j member
        rw [same, update_of_ne (ne_of_mem_of_not_mem member fresh)]
        exact free j (mem_cons_of_mem _ member)
    · exact ⟨sound, list, device, distinct, fun j member => free j (mem_cons_of_mem _ member)⟩

theorem Sound.drop {bits : SlotNo → Bool} (sound : Sound bits port) (freed : slot.dmabuf = none) :
    Sound (update bits i false) (port.setSlot i slot) where
  sized := by
    intro j buf is read
    by_cases same : j = i
    · rw [same, setSlot_self, freed] at is
      cases is
    · rw [setSlot_of_ne same] at is ⊢
      exact sound.sized j buf is read
  owned := by
    intro j has
    by_cases same : j = i
    · rw [same, setSlot_self] at has
      exact absurd freed has
    · rw [setSlot_of_ne same] at has
      rw [update_of_ne same]
      exact sound.owned j has
  fresh := by
    intro absent j
    by_cases same : j = i
    · rw [same, update_self]
    · rw [update_of_ne same]
      exact sound.fresh absent j
  keeps := sound.keeps
  keepsAhci := sound.keepsAhci
  keepsAtapi := sound.keepsAtapi

theorem completeSlot_upholds (sound : Sound port.shadowbit port) (device : port.storageDevice.isSome = true)
    (agrees : port.Agrees memory i) (fills : ∀ a, port.Fills memory i a → filled a)
    (kept : ∀ a, port.Describes memory i a → ¬ filled a) (same : ∀ a, ¬ filled a → other a = memory a) :
    Upholds Elsewhere (fun result => Sound (update port.shadowbit i false) result.1 ∧
      Beside port result.1 i ∧ result.1.shadowbit = update port.shadowbit i false ∧
        ∀ a, ¬ filled a → result.2 a = memory a) (completeSlot port other i) := by
  have described (a : Nat) (inside : port.Describes memory i a) : other a = memory a := same a (kept a inside)
  obtain ⟨prdtl, base⟩ := header_congr described
  have unset : Sound port.shadowbit (port.setShadowbit i false) := { sound with }
  have counted {done : Port κ} (list : done.list = port.list) {last : Memory} {value : Nat}
      (same : ∀ a, ¬ filled a → last a = memory a) (a : Nat) (unfilled : ¬ filled a) :
      last.setDword (done.list + 32 * i.val + 4) value a = memory a := by
    rw [list]
    refine (last.setDword_outside value ?_).trans (same a unfilled)
    by_contra inside
    exact unfilled (fills a (.inl (by omega)))
  unfold completeSlot
  dsimp only
  split
  · rename_i none
    have unowned : (port.my i).dmabuf = Option.none := by rwa [Agrees, if_pos (prdtl.symm.trans none)] at agrees
    rw [if_neg (by rw [setShadowbit, unowned]; exact Bool.false_ne_true)]
    have dropped : Sound _ ((port.setShadowbit i false).setSlot i (port.my i)) := unset.drop unowned
    rw [setSlot, show (port.setShadowbit i false).my = port.my from rfl, Function.update_eq_self] at dropped
    exact ⟨dropped, ⟨rfl, rfl, fun _ _ => rfl, fun _ _ => rfl⟩, rfl, counted rfl same⟩
  · rename_i some
    rw [Agrees, if_neg (prdtl ▸ some)] at agrees
    refine (ahciCmdPosthook_upholds unset device).bind ?_
    intro after handled
    have freed {last : Memory} (same : ∀ a, ¬ filled a → last a = memory a) :
        Upholds Elsewhere (fun result => Sound (update port.shadowbit i false) result.1 ∧
          Beside port result.1 i ∧ result.1.shadowbit = update port.shadowbit i false ∧
            ∀ a, ¬ filled a → result.2 a = memory a)
          (Except.ok (after.setSlot i { after.my i with dmabuf := none },
            last.setDword (after.list + 32 * i.val + 4) (after.mycmdlist i).prdbc)) :=
      ⟨(handled.sound unset).drop rfl, ⟨handled.list, handled.device,
        fun j other => (setSlot_of_ne other _).trans (handled.my j other), handled.headers⟩, handled.shadowbit,
        counted handled.list same⟩
    split
    · exact freed same
    · rename_i read
      have isRead : (port.mycmdlist i).w = false := by
        rw [handled.mycmdlist] at read
        exact Bool.eq_false_iff.mpr read
      obtain ⟨has, bytes⟩ := agrees isRead
      have lengths := handled.dmabuf
      split
      · rename_i gone
        rw [gone, Option.map_none, eq_comm, Option.map_eq_none_iff] at lengths
        exact absurd lengths has
      · rename_i buf is
        have length : buf.length = (after.my i).dmabuflen :=
          (handled.sound unset).sized i buf is (by rw [handled.mycmdlist]; exact isRead)
        refine Upholds.bind (p := fun last => ∀ a, ¬ filled a → last a = memory a) ?_ fun last same => freed same
        have table : (guestHeader other port.list i).table = (port.header memory i).table := base
        have count : (guestHeader other port.list i).prdtl = (port.header memory i).prdtl := prdtl
        rw [table, count]
        refine copyToGuest_upholds _ ?_ ?_ same (bytes.trans handled.dmabuflen.symm) (by omega)
        · intro k member a above below
          exact kept a (.inr (.inr ⟨k, mem_range.mp member, above, below⟩))
        · intro k member a above below
          exact fills a (.inr ⟨isRead, k, mem_range.mp member, above, below⟩)

end Port

namespace Port

def Finished (port : Port κ) (pxsact pxci : UInt32) (i : SlotNo) : Prop :=
  port.shadowbit i = true ∧ ¬ slotBit pxci i ∧ ¬ slotBit pxsact i

structure Noticed (port after : Port κ) (pxsact pxci : UInt32) : Prop where
  sound : Sound after.shadowbit after
  list : after.list = port.list
  device : after.storageDevice.isSome = port.storageDevice.isSome
  left : ∀ i, after.shadowbit i = true → port.shadowbit i = true ∧ ¬ port.Finished pxsact pxci i

theorem ahciCmdComplete_upholds {pxsact pxci : UInt32} (sound : Sound port.shadowbit port)
    (device : port.storageDevice.isSome = true) (agrees : ∀ i, port.Finished pxsact pxci i → port.Agrees memory i)
    (fills : ∀ i, port.Finished pxsact pxci i → ∀ a, port.Fills memory i a → filled a)
    (kept : ∀ i, port.Finished pxsact pxci i → ∀ a, port.Describes memory i a → ¬ filled a)
    (same : ∀ a, ¬ filled a → other a = memory a) :
    Upholds Elsewhere (fun result => Noticed port result.1 pxsact pxci ∧ ∀ a, ¬ filled a → result.2 a = memory a)
      (ahciCmdComplete port other pxsact pxci) := by
  have loop := @upholds_foldlM SlotNo (Port κ × Memory) Stop Elsewhere
    (fun state i =>
      if state.1.shadowbit i ∧ ¬ slotBit pxci i ∧ ¬ slotBit pxsact i then completeSlot state.1 state.2 i
      else pure state)
    (fun is state => Sound state.1.shadowbit state.1 ∧ state.1.list = port.list ∧
      state.1.storageDevice.isSome = port.storageDevice.isSome ∧ is.Nodup ∧
      (∀ j ∈ is, state.1.my j = port.my j ∧ state.1.mycmdlist j = port.mycmdlist j ∧
        state.1.shadowbit j = port.shadowbit j) ∧
      (∀ j ∉ is, state.1.shadowbit j = true → port.shadowbit j = true ∧ ¬ port.Finished pxsact pxci j) ∧
      ∀ a, ¬ filled a → state.2 a = memory a) ?_ (List.finRange 32) (port, other)
    ⟨sound, rfl, rfl, nodup_finRange 32, fun j _ => ⟨rfl, rfl, rfl⟩,
      fun j absent => absurd (mem_finRange j) absent, same⟩
  · refine loop.mono ?_
    rintro result ⟨sound, list, device, -, -, left, same⟩
    exact ⟨⟨sound, list, device, fun i => left i (not_mem_nil)⟩, same⟩
  · rintro i is ⟨before, memory'⟩ ⟨sound, list, device', distinct, ahead, left, same⟩
    obtain ⟨fresh, distinct⟩ := nodup_cons.mp distinct
    obtain ⟨my, header, bit⟩ := ahead i mem_cons_self
    dsimp only at sound list device' my header bit same ⊢
    split
    · rename_i done
      have finished : port.Finished pxsact pxci i := ⟨bit ▸ done.1, done.2⟩
      have describes (a : Nat) : before.Describes memory i a ↔ port.Describes memory i a := by
        simp only [Describes, Port.header, list]
      have filling (a : Nat) : before.Fills memory i a ↔ port.Fills memory i a := by
        simp only [Fills, Port.header, list, header]
      refine (completeSlot_upholds sound (device'.trans device)
        ((agrees i finished).congr list my header fun _ _ => rfl) (fun a inside => fills i finished a ((filling a).mp inside))
        (fun a inside => kept i finished a ((describes a).mp inside)) same).mono ?_
      rintro ⟨after, last⟩ ⟨sound', beside, bits, same'⟩
      dsimp only at sound' beside bits same' ⊢
      refine ⟨bits ▸ sound', beside.list.trans list, beside.device.trans device', distinct, ?_, ?_, same'⟩
      · intro j member
        have other : j ≠ i := ne_of_mem_of_not_mem member fresh
        obtain ⟨my, header, bit⟩ := ahead j (mem_cons_of_mem _ member)
        exact ⟨(beside.my j other).trans my, (beside.headers j other).trans header, by
          rw [bits, update_of_ne other]; exact bit⟩
      · intro j absent isSet
        by_cases other : j = i
        · rw [bits, other, update_self] at isSet
          cases isSet
        · rw [bits, update_of_ne other] at isSet
          exact left j (fun member => (mem_cons.mp member).elim other absent) isSet
    · rename_i undone
      refine ⟨sound, list, device', distinct, fun j member => ahead j (mem_cons_of_mem _ member), ?_, same⟩
      intro j absent isSet
      by_cases other : j = i
      · subst other
        exact ⟨bit ▸ isSet, fun finished => undone ⟨isSet, finished.2⟩⟩
      · exact left j (fun member => (mem_cons.mp member).elim other absent) isSet

end Port

/-! Accesses -/

namespace Port

def prepared (port : Port κ) (p : PortNo) (env : Env) : Port κ :=
  if port.storageDevice.isSome then port else (port.ahciPortDataInit p env).1

theorem Sound.prepared (sound : Sound port.shadowbit port) (p : PortNo) (env : Env) :
    Sound port.shadowbit (port.prepared p env) ∧ (port.prepared p env).shadowbit = port.shadowbit ∧
      (port.prepared p env).storageDevice.isSome = true := by
  unfold Port.prepared
  split
  · rename_i device
    exact ⟨sound, rfl, device⟩
  · refine ⟨?_, rfl, rfl⟩
    exact {
      sized := nofun
      owned := fun i has => absurd rfl has
      fresh := nofun
      keeps := fun keys is => Option.some.inj is ▸ sound.keepsAhci
      keepsAhci := sound.keepsAhci
      keepsAtapi := sound.keepsAtapi }

theorem Sound.cancel (sound : Sound port.shadowbit port) : Sound port.ahciCmdCancel.shadowbit port.ahciCmdCancel := by
  have none (i : SlotNo) : (port.ahciCmdCancel.my i).dmabuf = none := by
    rw [ahciCmdCancel]
    dsimp only
    split
    · rfl
    · rename_i unset
      by_contra has
      exact unset (sound.owned i has)
  exact {
    sized := fun i buf is => by rw [none i] at is; cases is
    owned := fun i has => absurd (none i) has
    fresh := fun _ _ => rfl
    keeps := sound.keeps
    keepsAhci := sound.keepsAhci
    keepsAtapi := sound.keepsAtapi }

end Port

structure Part where
  env : Env
  offset : Nat
  len : Nat
  wr : Option UInt32

variable {ad : AhciData κ} {part : Part} {reply : Reply κ} {p : PortNo}

def AhciData.Sound (ad : AhciData κ) : Prop := ∀ p, Port.Sound (ad.port p).shadowbit (ad.port p)

theorem AhciData.setPort_self : (ad.setPort p port).port p = port := update_self ..

theorem AhciData.setPort_of_ne {q : PortNo} (other : q ≠ p) : (ad.setPort p port).port q = ad.port q :=
  update_of_ne other _ _

theorem AhciData.Sound.setPort (sound : ad.Sound) (here : Port.Sound port.shadowbit port) : (ad.setPort p port).Sound := by
  intro q
  by_cases same : q = p
  · rw [same, AhciData.setPort_self]
    exact here
  · rw [AhciData.setPort_of_ne same]
    exact sound q

namespace Part

def Done (part : Part) (ad : AhciData κ) (p : PortNo) (i : SlotNo) : Prop :=
  (ad.port p).storageDevice.isSome = true ∧ (ad.port p).Finished (part.env.register (portRegister p pxSact))
    (part.env.register (portRegister p pxCi)) i

def Issues (part : Part) (p : PortNo) (i : SlotNo) : Prop :=
  part.offset = portRegister p pxCi ∧ part.len = 4 ∧ ∃ value, part.wr = some value ∧ slotBit value i = true

def Filled (part : Part) (ad : AhciData κ) (memory : Memory) (address : Nat) : Prop :=
  ∃ p i, part.Done ad p i ∧ (ad.port p).Fills memory i address

/-- The guest leaves alone what it has said of its commands until it is told that they are complete, and does not
issue a command that is outstanding. -/
structure Careful (part : Part) (ad : AhciData κ) (memory : Memory) : Prop where
  agrees : ∀ p i, part.Done ad p i → (ad.port p).Agrees memory i
  kept : ∀ p i, part.Done ad p i → ∀ a, (ad.port p).Describes memory i a → ¬ part.Filled ad memory a
  unissued : ∀ p i, part.Issues p i → (ad.port p).shadowbit i = true → part.Done ad p i
  valid : ∀ p i, part.Issues p i → ((ad.port p).prepared p part.env).Valid memory i
  keptIssued : ∀ p i, part.Issues p i → ∀ a, ((ad.port p).prepared p part.env).Describes memory i a →
    ¬ part.Filled ad memory a

end Part

structure Looked (part : Part) (ad : AhciData κ) (memory : Memory) (ps : List PortNo) (reply : Reply κ) : Prop where
  sound : reply.ad.Sound
  ahead : ∀ p ∈ ps, reply.ad.port p = ad.port p
  list : ∀ p, (reply.ad.port p).list = (ad.port p).list
  device : ∀ p, (reply.ad.port p).storageDevice.isSome = (ad.port p).storageDevice.isSome
  left : ∀ p ∉ ps, ∀ i, (reply.ad.port p).shadowbit i = true → (ad.port p).shadowbit i = true ∧ ¬ part.Done ad p i
  same : ∀ a, ¬ part.Filled ad memory a → reply.memory a = memory a

theorem ahciPortEq_upholds (off len eq : Nat) :
    Upholds Elsewhere (fun is => is = true → off = eq ∧ len = 4) (ahciPortEq off len eq) := by
  unfold ahciPortEq
  split
  · split
    · exact fun _ => ⟨‹_›, ‹_›⟩
    · exact elsewhere_register
  · split
    · split
      · exact nofun
      · exact elsewhere_register
    · split
      · exact elsewhere_register
      · exact nofun

theorem notice_upholds {ps : List PortNo} (careful : part.Careful ad memory) (off : Option Nat) (fresh : p ∉ ps)
    (looked : Looked part ad memory (p :: ps) reply) :
    Upholds Elsewhere (Looked part ad memory ps) (Reply.notice part.len off part.env p reply) := by
  have is := looked.ahead p mem_cons_self
  have sound : Port.Sound (ad.port p).shadowbit (ad.port p) := is ▸ looked.sound p
  unfold Reply.notice
  dsimp only
  rw [is]
  split
  · rename_i nothing
    have unset (i : SlotNo) (isSet : (ad.port p).shadowbit i = true) : False := by
      rcases nothing with none | idle
      · rw [sound.fresh (Option.isNone_iff_eq_none.mp none) i] at isSet
        cases isSet
      · exact idle (any_eq_true.mpr ⟨i, mem_finRange i, isSet⟩)
    refine ⟨looked.sound, fun q member => looked.ahead q (mem_cons_of_mem _ member), looked.list, looked.device, ?_,
      looked.same⟩
    intro q absent i isSet
    by_cases other : q = p
    · subst other
      exact (unset i (is ▸ isSet)).elim
    · exact looked.left q (fun member => (mem_cons.mp member).elim other absent) i isSet
  · rename_i something
    have device : (ad.port p).storageDevice.isSome = true := by
      by_contra none
      exact something (.inl (by simpa using none))
    refine (Port.ahciCmdComplete_upholds sound device (fun i finished => careful.agrees p i ⟨device, finished⟩)
      (fun i finished a inside => ⟨p, i, ⟨device, finished⟩, inside⟩)
      (fun i finished => careful.kept p i ⟨device, finished⟩) looked.same).bind ?_
    rintro ⟨done, last⟩ ⟨noticed, same⟩
    have next (ops : List Op) (answer : Option UInt32) :
        Looked part ad memory ps ⟨reply.ad.setPort p done, last, ops, answer⟩ := by
      refine ⟨looked.sound.setPort noticed.sound, ?_, ?_, ?_, ?_, same⟩
      · intro q member
        rw [AhciData.setPort_of_ne (ne_of_mem_of_not_mem member fresh)]
        exact looked.ahead q (mem_cons_of_mem _ member)
      · intro q
        by_cases other : q = p
        · rw [other, AhciData.setPort_self, noticed.list]
        · rw [AhciData.setPort_of_ne other, looked.list]
      · intro q
        by_cases other : q = p
        · rw [other, AhciData.setPort_self, noticed.device]
        · rw [AhciData.setPort_of_ne other, looked.device]
      · intro q absent i isSet
        by_cases other : q = p
        · rw [other, AhciData.setPort_self] at isSet
          rw [other]
          exact ⟨(noticed.left i isSet).1, fun finished => (noticed.left i isSet).2 finished.2⟩
        · rw [AhciData.setPort_of_ne other] at isSet
          exact looked.left q (fun member => (mem_cons.mp member).elim other absent) i isSet
    split
    · exact next _ _
    · refine (ahciPortEq_upholds _ _ _).bind fun _ _ => ?_
      split
      · exact next _ _
      · refine (ahciPortEq_upholds _ _ _).bind fun _ _ => ?_
        split
        · exact next _ _
        · exact next _ _

theorem notices_upholds (sound : ad.Sound) (careful : part.Careful ad memory) (off : PortNo → Option Nat)
    (starts : reply.ad = ad ∧ reply.memory = memory) :
    Upholds Elsewhere (Looked part ad memory [])
      ((List.finRange 32).foldlM (fun reply p => Reply.notice part.len (off p) part.env p reply) reply) := by
  have loop := @upholds_foldlM PortNo (Reply κ) Stop Elsewhere
    (fun reply p => Reply.notice part.len (off p) part.env p reply)
    (fun ps reply => ps.Nodup ∧ Looked part ad memory ps reply) ?_ (List.finRange 32) reply
    ⟨nodup_finRange 32, starts.1 ▸ sound, fun p _ => by rw [starts.1], fun p => by rw [starts.1],
      fun p => by rw [starts.1], fun p absent => absurd (mem_finRange p) absent, fun a _ => by rw [starts.2]⟩
  · exact loop.mono fun _ inv => inv.2
  · rintro p ps reply ⟨distinct, looked⟩
    obtain ⟨fresh, distinct⟩ := nodup_cons.mp distinct
    exact (notice_upholds careful (off p) fresh looked).mono fun _ next => ⟨distinct, next⟩

namespace Reply

theorem prepare_eq (env : Env) : (reply.prepare p env).ad.port p = (reply.ad.port p).prepared p env ∧
    (reply.prepare p env).memory = reply.memory := by
  unfold prepare Port.prepared
  split
  · exact ⟨rfl, rfl⟩
  · exact ⟨AhciData.setPort_self, rfl⟩

theorem prepare_sound (sound : reply.ad.Sound) (env : Env) : (reply.prepare p env).ad.Sound := by
  obtain ⟨prepared, bits, -⟩ := (sound p).prepared p env
  unfold prepare
  unfold Port.prepared at prepared bits
  split
  · exact sound
  · rename_i none
    rw [if_neg none] at prepared bits
    exact sound.setPort (bits ▸ prepared)

theorem writeCmd_sound (sound : reply.ad.Sound) (env : Env) (value : UInt32) : (reply.writeCmd p env value).ad.Sound := by
  unfold writeCmd
  dsimp only
  split
  · split
    · exact sound.setPort (sound p).cancel
    · exact sound
  · split
    · split
      · exact sound
      · exact sound
    · exact sound

theorem writeCi_upholds (careful : part.Careful ad memory) (looked : Looked part ad memory [] reply)
    (issues : ∀ i, slotBit value i = true → part.Issues p i) :
    Upholds Elsewhere (fun after => after.ad.Sound) (reply.writeCi p part.env value) := by
  obtain ⟨prepared, bits, device⟩ := (looked.sound p).prepared p part.env
  obtain ⟨is, memory'⟩ := @prepare_eq κ reply p part.env
  unfold writeCi
  dsimp only
  rw [is, memory']
  have list : ((reply.ad.port p).prepared p part.env).list = ((ad.port p).prepared p part.env).list := by
    unfold Port.prepared
    rw [looked.device p]
    split
    · exact looked.list p
    · rfl
  refine (Port.ahciCmdStart_upholds (bits ▸ prepared) device ?_ ?_).bind fun after sound =>
    (prepare_sound looked.sound part.env).setPort sound
  · intro i named
    rw [bits]
    by_contra isSet
    obtain ⟨was, unfinished⟩ := looked.left p not_mem_nil i (by simpa using isSet)
    exact unfinished (careful.unissued p i (issues i named) was)
  · intro i named
    have same (a : Nat) (inside : ((ad.port p).prepared p part.env).Describes memory i a) :
        reply.memory a = memory a := looked.same a (careful.keptIssued p i (issues i named) a inside)
    have header : ((reply.ad.port p).prepared p part.env).header reply.memory i =
        ((ad.port p).prepared p part.env).header reply.memory i := by rw [Port.header, Port.header, list]
    obtain ⟨prdtl, base⟩ := Port.header_congr same
    have valid := careful.valid p i (issues i named)
    unfold Port.Valid at valid ⊢
    rwa [header, prdtl, base, prdtBytes_congr fun k less => Port.prds_congr same less]

theorem writePort_upholds (careful : part.Careful ad memory) (looked : Looked part ad memory [] reply) {off : Nat}
    (here : off = pxCi → part.len = 4 → ∀ i, slotBit value i = true → part.Issues p i) :
    Upholds Elsewhere (fun result => result.1.ad.Sound) (reply.writePort p part.env off part.len value) := by
  unfold writePort
  have prepared := prepare_sound (p := p) looked.sound part.env
  refine (ahciPortEq_upholds _ _ _).bind fun _ _ => ?_
  split
  · exact prepared.setPort { prepared p with }
  · refine (ahciPortEq_upholds _ _ _).bind fun _ _ => ?_
    split
    · exact prepared.setPort { prepared p with }
    · refine (ahciPortEq_upholds _ _ _).bind fun _ _ => ?_
      split
      · exact writeCmd_sound looked.sound part.env value
      · refine (ahciPortEq_upholds _ _ _).bind fun _ _ => ?_
        split
        · exact prepared
        · refine (ahciPortEq_upholds _ _ _).bind fun _ isCi => ?_
          split
          · rename_i ci
            exact (writeCi_upholds careful looked (here (isCi ci).1 (isCi ci).2)).bind fun after sound => sound
          · exact looked.sound

theorem readPort_upholds (sound : reply.ad.Sound) (env : Env) (off len : Nat) :
    Upholds Elsewhere (fun result => result.1.ad.Sound) (reply.readPort p env off len) := by
  unfold readPort
  refine (ahciPortEq_upholds _ _ _).bind fun _ _ => ?_
  split
  · exact prepare_sound sound env
  · refine (ahciPortEq_upholds _ _ _).bind fun _ _ => ?_
    split
    · exact prepare_sound sound env
    · exact sound

theorem forward_sound (sound : reply.ad.Sound) (offset len : Nat) (wr : Option UInt32) :
    (reply.forward offset len wr).ad.Sound := by
  cases wr with
  | none => exact sound
  | some value => exact sound

end Reply

theorem ahciProbe_port (env : Env) (wrote : Option UInt32) : (ahciProbe ad env wrote).port = ad.port := by
  unfold ahciProbe
  dsimp only
  split_ifs <;> rfl

theorem AhciData.Sound.probe (sound : ad.Sound) (env : Env) (wrote : Option UInt32) :
    (ahciProbe ad env wrote).Sound := by
  intro p
  rw [ahciProbe_port]
  exact sound p

theorem portAt_eq {offset : Nat} (is : portAt offset = some p) : offset = portRegister p (offset % 0x80) := by
  unfold portAt at is
  split at is
  · cases is
    dsimp only [portRegister]
    omega
  · cases is

theorem mmhandlerEnabled_upholds (sound : reply.ad.Sound) (careful : part.Careful reply.ad reply.memory) :
    Upholds Elsewhere (fun after => after.ad.Sound)
      (mmhandlerEnabled reply part.env part.offset part.len part.wr) := by
  unfold mmhandlerEnabled
  dsimp only
  split
  · exact elsewhere_register
  · refine (notices_upholds sound careful _ ⟨rfl, rfl⟩).bind fun next looked => ?_
    split
    · exact looked.sound
    · split
      · exact elsewhere_register
      · have ghc (reply : Reply κ) (sound : reply.ad.Sound) (value : UInt32) :
            Upholds Elsewhere (fun after => after.ad.Sound) (do
              if ← ahciPortEq part.offset part.len globalGhc then
                let reply := reply.log [.write globalGhc 4 value]
                pure { reply with ad := ahciProbe reply.ad part.env (some value) }
              else pure (reply.forward part.offset part.len part.wr)) := by
          refine (ahciPortEq_upholds _ _ _).bind fun _ _ => ?_
          split
          · exact sound.probe part.env (some value)
          · exact Reply.forward_sound sound part.offset part.len part.wr
        split
        · rename_i value wrote
          split
          · rename_i p is
            refine (Reply.writePort_upholds careful looked ?_).bind fun result sound => ?_
            · intro ci four i named
              exact ⟨ci ▸ portAt_eq is, four, value, wrote, named⟩
            · split
              · exact sound
              · exact ghc result.1 sound value
          · exact ghc next looked.sound value
        · split
          · refine (Reply.readPort_upholds looked.sound part.env _ _).bind fun result sound => ?_
            split
            · exact sound
            · exact Reply.forward_sound sound part.offset part.len none
          · exact Reply.forward_sound looked.sound part.offset part.len none

theorem mmhandlerPart_upholds (sound : reply.ad.Sound)
    (careful : reply.ad.enabled = true → part.Careful reply.ad reply.memory) :
    Upholds Elsewhere (fun after => after.ad.Sound) (mmhandlerPart reply part.env part.offset part.len part.wr) := by
  unfold mmhandlerPart
  dsimp only
  split
  · rename_i enabled
    exact mmhandlerEnabled_upholds sound (careful enabled)
  · have forwarded := Reply.forward_sound sound part.offset part.len part.wr
    split
    · exact forwarded
    · split
      · exact forwarded.probe part.env _
      · split
        · exact forwarded.probe part.env _
        · exact forwarded

/-! Runs -/

structure State (κ : Type) where
  ad : AhciData κ
  memory : Memory

/-- An access of the guest with what comes from outside for its halves, or any other change to its memory. -/
inductive Event where
  | access (access : Access) (env env2 : Env)
  | rewrite (memory : Memory)

def Access.first (access : Access) (env : Env) : Part :=
  ⟨env, access.offset, if access.len = 8 then 4 else access.len, access.wr access.low⟩

def Access.second (access : Access) (env : Env) : Part := ⟨env, access.offset + 4, 4, access.wr access.high⟩

namespace Event

def step (s : State κ) : Event → Except Stop (State κ)
  | .access ask env env2 => do
      let result ← mmhandler2 s.ad s.memory env env2 ask
      pure ⟨result.1.ad, result.1.memory⟩
  | .rewrite memory => .ok { s with memory := memory }

def Careful (s : State κ) : Event → Prop
  | .access ask env env2 => s.ad.notAhci = false →
      (s.ad.enabled = true → (ask.first env).Careful s.ad s.memory) ∧
        (ask.len = 8 → ∀ reply, mmhandlerPart ⟨s.ad, s.memory, [], none⟩ env ask.offset 4 (ask.wr ask.low) =
          .ok reply → reply.ad.enabled = true → (ask.second env2).Careful reply.ad reply.memory)
  | .rewrite _ => True

theorem step_upholds {s : State κ} {event : Event} (sound : s.ad.Sound) (careful : event.Careful s) :
    Upholds Elsewhere (fun after => after.ad.Sound) (event.step s) := by
  cases event with
  | rewrite memory => exact sound
  | access ask env env2 =>
    refine Upholds.bind (p := fun result => result.1.ad.Sound) ?_ fun result sound => sound
    unfold mmhandler2
    dsimp only
    split
    · exact Reply.forward_sound (by exact sound) _ _ _
    · rename_i ahci
      obtain ⟨first, second⟩ := careful (by simpa using ahci)
      have part := @mmhandlerPart_upholds κ (ask.first env) ⟨s.ad, s.memory, [], none⟩ sound first
      unfold Access.first at part
      split
      · rename_i eight
        rw [if_pos eight] at part
        dsimp only at part
        cases done : mmhandlerPart ⟨s.ad, s.memory, [], none⟩ env ask.offset 4 (ask.wr ask.low) with
        | error stop =>
          rw [done] at part
          exact part
        | ok reply =>
          rw [done] at part
          have rest : Upholds Elsewhere (fun after => after.ad.Sound)
              (mmhandlerPart { reply with answer := none } env2 (ask.offset + 4) 4 (ask.wr ask.high)) :=
            @mmhandlerPart_upholds κ (ask.second env2) { reply with answer := none } part (second eight reply done)
          exact rest.bind fun _ sound => sound
      · rename_i short
        rw [if_neg short] at part
        exact part.bind fun _ sound => sound

end Event

def CarefulStep (before : State κ) (event : Event) (after : State κ) : Prop :=
  event.Careful before ∧ event.step before = .ok after

structure State.Start (s : State κ) : Prop where
  storageDevice : ∀ p, (s.ad.port p).storageDevice = none
  shadowbit : ∀ p i, (s.ad.port p).shadowbit i = false
  dmabuf : ∀ p i, ((s.ad.port p).my i).dmabuf = none
  keepsAhci : ∀ p, KeepsLength (s.ad.port p).ahciKeys
  keepsAtapi : ∀ p, KeepsLength (s.ad.port p).atapiKeys

theorem State.Start.sound {s : State κ} (start : s.Start) : s.ad.Sound := fun p => {
  sized := fun i buf is => by rw [start.dmabuf p i] at is; cases is
  owned := fun i has => absurd (start.dmabuf p i) has
  fresh := fun _ => start.shadowbit p
  keeps := fun keys is => by rw [start.storageDevice p] at is; cases is
  keepsAhci := start.keepsAhci p
  keepsAtapi := start.keepsAtapi p }

def idle : State Unit where
  ad :=
    { notAhci := false
      enabled := true
      maplen := 0x200
      pi := 1
      ncs := 1
      port := fun _ =>
        { storageDevice := none
          ahciKeys := []
          atapiKeys := []
          atapi := false
          clb := 0
          clbu := 0
          shadowbit := fun _ => false
          myclb := 0
          myclbu := 0
          mycmdlist := fun _ => ⟨false, false, 0, 0, 0, 0⟩
          my := fun _ => ⟨0, [], ⟨0, 0, 0, false⟩, none, 0, 0, 0, 0, 0, false, .none⟩ } }
  memory := fun _ => 0

def issue : Event :=
  .access ⟨portRegister 0 pxCi, 4, true, 1, 0⟩
    ⟨fun offset => if offset = portRegister 0 pxCi then 1 else 0, fun _ => ⟨0, fun _ => 0⟩, fun _ => 0⟩
    ⟨fun _ => 0, fun _ => ⟨0, fun _ => 0⟩, fun _ => 0⟩

theorem idle_start : idle.Start where
  storageDevice := fun _ => rfl
  shadowbit := fun _ _ => rfl
  dmabuf := fun _ _ => rfl
  keepsAhci := fun _ _ member => absurd member not_mem_nil
  keepsAtapi := fun _ _ member => absurd member not_mem_nil

theorem valid_zero (port : Port κ) (i : SlotNo) : port.Valid (fun _ => 0) i := by
  have none : (port.header (fun _ => 0) i).prdtl = 0 := by simp [Port.header, guestHeader, Memory.dword, Memory.word]
  unfold Port.Valid
  rw [none]
  exact Nat.zero_le _

end DisasVisor.Ahci
