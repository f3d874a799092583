import DisasVisor.Lib.Transitions
import Mathlib.Algebra.Group.Nat.Defs

/-!
The shadow receive ring of `drivers/net/rtl8169.c`: the NIC fills its descriptors while
`rtl8169_get_rxdata_to_vpn` scans them.
-/

namespace DisasVisor.Rtl8169

open Function (update update_self update_of_ne)
open List

structure Desc where
  own : Bool
  eor : Bool
  fs : Bool
  ls : Bool
  len : Nat
  deriving DecidableEq

def Desc.next (d : Desc) (i : Nat) : Nat := if d.eor then 0 else i + 1

/-- `part` is what the NIC has of a frame whose last descriptor it has not filled. The frames that have
come, the descriptors that hold them and those due in the scan are there to state what is passed on. -/
structure Receiver where
  ring : Nat → Desc
  rdbuf : Nat → List UInt8
  passed : List (List UInt8)
  rxDescRing : Bool
  scan : Option Nat
  position : Nat
  part : Option (List UInt8)
  arrived : List (List UInt8)
  waiting : List Nat
  due : Nat

def rxdescArrayNum : Nat := 256

namespace Receiver

/-- `rtl8169_get_rxdesc_data`. -/
def getRxdescData (s : Receiver) (i : Nat) : Receiver :=
  let bufSize := (s.ring i).len
  let totalSize := (bufSize + 2 ^ 32 - 4) % 2 ^ 32
  if totalSize ≤ bufSize then
    { s with
      passed := s.passed ++ [(s.rdbuf i).take totalSize]
      ring := update s.ring i ⟨true, (s.ring i).eor, false, false, 0xFFF⟩ }
  else s

/-- One turn of the loop of `rtl8169_get_rxdata_to_vpn`. -/
def getDesc (s : Receiver) (i : Nat) : Receiver :=
  let d := s.ring i
  if d.own then s
  else if d.fs ∧ d.ls then s.getRxdescData i
  else if d.fs then { s.getRxdescData i with rxDescRing := true }
  else if d.ls then { s.getRxdescData i with rxDescRing := false }
  else if s.rxDescRing then s.getRxdescData i
  else s

end Receiver

inductive Event where
  | filled (piece : List UInt8) (len : Nat) (last : Bool)
  | polled (rxDescRing : Bool)
  | scanned

namespace Receiver

/-- The NIC puts the length of a frame into its descriptor where there is only one; the variable of the scan
is not initialized. -/
def step (s : Receiver) : Event → Option Receiver
  | .filled piece len last =>
    let d := s.ring s.position
    let frame := s.part.getD [] ++ piece
    if d.own ∧ piece.length ≤ 0xFFF ∧ (s.part = none → last → len = piece.length) ∧ (last → 4 ≤ frame.length) then
      some { s with
        ring := update s.ring s.position ⟨false, d.eor, s.part.isNone, last, len % 2 ^ 14⟩
        rdbuf := update s.rdbuf s.position piece
        position := d.next s.position
        part := if last then none else some frame
        arrived := if last then s.arrived ++ [frame] else s.arrived
        waiting := s.waiting ++ [s.position] }
    else none
  | .polled rxDescRing =>
    if s.scan = none then some { s with scan := some 0, rxDescRing, due := s.arrived.length } else none
  | .scanned =>
    s.scan.map fun i =>
      let t := s.getDesc i
      { t with
        waiting := if (t.ring i).own then s.waiting.erase i else s.waiting
        scan := if (s.ring i).eor ∨ i + 1 = rxdescArrayNum then none else some (i + 1) }

def start (size : Nat) : Receiver where
  ring := fun i => ⟨true, i + 1 = size, false, false, 0xFFF⟩
  rdbuf := fun _ => []
  passed := []
  rxDescRing := false
  scan := none
  position := 0
  part := none
  arrived := []
  waiting := []
  due := 0

def body (frame : List UInt8) : List UInt8 := frame.take (frame.length - 4)

/-- What has been passed on is the beginning of what has come, and after a scan all that had come before it. -/
structure Passes (s : Receiver) : Prop where
  inOrder : s.passed <+: s.arrived.map body
  complete : s.scan = none → s.due ≤ s.passed.length

/-- A frame has one descriptor; it does not come ahead of a scan that has left an older one behind, and
no scan begins when the frames that wait go over the end of the ring. -/
def Meets (s : Receiver) : Event → Prop
  | .filled _ _ last =>
    s.part = none ∧ last = true ∧
      ∀ i, s.scan = some i → i ≤ s.position → ∀ p ∈ s.waiting, i ≤ p ∧ p < s.position
  | .polled _ => s.waiting.Pairwise (· < ·)
  | .scanned => True

def Step (before : Receiver) (event : Event) (after : Receiver) : Prop :=
  before.step event = some after ∧ before.Meets event

/-- A scan at `i` still comes to the frames of `ahead`, and not to those `behind` it. -/
structure Split (s : Receiver) (i : Nat) (ahead behind : List Nat) : Prop where
  waiting : s.waiting = ahead ++ behind
  sorted : ahead.Pairwise (· < ·)
  from' : ∀ p ∈ ahead, i ≤ p
  below : ∀ p ∈ behind, p < i
  due : s.due ≤ s.passed.length + ahead.length

structure Tidy (size : Nat) (s : Receiver) : Prop where
  ends : ∀ p, (s.ring p).eor = true ↔ p + 1 = size
  inside : s.position < size
  owner : ∀ p, (s.ring p).own = false ↔ p ∈ s.waiting
  inRing : ∀ p ∈ s.waiting, p < size
  single : ∀ p ∈ s.waiting, (s.ring p).fs = true ∧ (s.ring p).ls = true ∧
    (s.ring p).len = (s.rdbuf p).length ∧ 4 ≤ (s.rdbuf p).length ∧ (s.rdbuf p).length ≤ 0xFFF
  told : s.passed ++ s.waiting.map (fun p => body (s.rdbuf p)) = s.arrived.map body
  between : s.part = none
  scanning : ∀ i, s.scan = some i → ∃ ahead behind, s.Split i ahead behind
  finished : s.scan = none → s.due ≤ s.passed.length

variable {size : Nat} {s t : Receiver}

theorem Tidy.passes (tidy : s.Tidy size) : s.Passes := ⟨⟨_, tidy.told⟩, tidy.finished⟩

theorem ends_update {ring : Nat → Desc} (ends : ∀ p, (ring p).eor = true ↔ p + 1 = size) {q : Nat} {d : Desc}
    (same : d.eor = (ring q).eor) (p : Nat) : (update ring q d p).eor = true ↔ p + 1 = size := by
  by_cases here : p = q
  · rw [here, update_self, same]
    exact ends q
  · rw [update_of_ne here]
    exact ends p

theorem start_tidy (positive : 0 < size) : (start size).Tidy size where
  ends := fun p => decide_eq_true_iff
  inside := positive
  owner := fun p => by simp [start]
  inRing := fun p member => absurd member not_mem_nil
  single := fun p member => absurd member not_mem_nil
  told := rfl
  between := rfl
  scanning := fun i scan => absurd scan.symm (Option.some_ne_none i)
  finished := fun _ => Nat.le_refl 0

theorem Tidy.filled (tidy : s.Tidy size) {piece : List UInt8} {len : Nat} {last : Bool}
    (step : s.step (.filled piece len last) = some t) (meets : s.Meets (.filled piece len last)) : t.Tidy size := by
  obtain ⟨between, rfl, near⟩ := meets
  simp only [Receiver.step, between, Option.getD_none, nil_append, forall_const, if_true, Option.isNone_none,
    Option.ite_none_right_eq_some, Option.some_inj] at step
  obtain ⟨⟨own, room, whole, crc⟩, rfl⟩ := step
  have fresh : s.position ∉ s.waiting := fun member => by
    rw [(tidy.owner s.position).mpr member] at own
    cases own
  have apart {p : Nat} (member : p ∈ s.waiting) : p ≠ s.position := fun same => fresh (same ▸ member)
  have small : len % 2 ^ 14 = piece.length := by omega
  exact {
    ends := ends_update tidy.ends rfl
    inside := by
      dsimp only [Desc.next]
      split
      · exact Nat.zero_lt_of_lt tidy.inside
      · rename_i more
        have ends := (tidy.ends s.position).not.mp more
        have inside := tidy.inside
        omega
    owner := fun p => by
      dsimp only
      rw [mem_append, mem_singleton, ← tidy.owner p]
      by_cases here : p = s.position
      · rw [here, update_self]
        exact iff_of_true rfl (.inr rfl)
      · rw [update_of_ne here]
        exact (or_iff_left here).symm
    inRing := fun p member => by
      rcases mem_append.mp member with old | new
      · exact tidy.inRing p old
      · exact mem_singleton.mp new ▸ tidy.inside
    single := fun p member => by
      dsimp only
      rcases mem_append.mp member with old | new
      · rw [update_of_ne (apart old), update_of_ne (apart old)]
        exact tidy.single p old
      · rw [mem_singleton.mp new, update_self, update_self]
        exact ⟨rfl, rfl, small, crc, room⟩
    told := by
      dsimp only
      have same : s.waiting.map (fun p => body (update s.rdbuf s.position piece p)) =
          s.waiting.map fun p => body (s.rdbuf p) :=
        map_congr_left fun p member => by rw [update_of_ne (apart member)]
      rw [map_append, map_append, same, ← append_assoc, tidy.told, map_singleton, map_singleton, update_self]
    between := rfl
    scanning := fun i scan => by
      obtain ⟨ahead, behind, split⟩ := tidy.scanning i scan
      by_cases reached : i ≤ s.position
      · have inScan := near i scan reached
        rw [split.waiting] at inScan
        have none' : behind = [] := eq_nil_iff_forall_not_mem.mpr fun p member => by
          have above := inScan p (mem_append_right _ member)
          have below := split.below p member
          omega
        rw [none', append_nil] at inScan
        refine ⟨ahead ++ [s.position], [], ?_, ?_, ?_, fun p member => absurd member not_mem_nil, ?_⟩
        · rw [split.waiting, none', append_nil, append_nil]
        · exact pairwise_append.mpr ⟨split.sorted, pairwise_singleton _ _, fun p member q here =>
            mem_singleton.mp here ▸ (inScan p member).2⟩
        · intro p member
          rcases mem_append.mp member with old | new
          · exact split.from' p old
          · exact mem_singleton.mp new ▸ reached
        · have due := split.due
          rw [length_append]
          exact Nat.le_trans due (Nat.add_le_add_left (Nat.le_add_right _ _) _)
      · refine ⟨ahead, behind ++ [s.position], ?_, split.sorted, split.from', ?_, split.due⟩
        · rw [split.waiting, append_assoc]
        · intro p member
          rcases mem_append.mp member with old | new
          · exact split.below p old
          · rw [mem_singleton.mp new]
            exact Nat.not_le.mp reached
    finished := tidy.finished }

theorem Tidy.polled (tidy : s.Tidy size) {rxDescRing : Bool} (step : s.step (.polled rxDescRing) = some t)
    (meets : s.Meets (.polled rxDescRing)) : t.Tidy size := by
  simp only [Receiver.step, Option.ite_none_right_eq_some, Option.some_inj] at step
  obtain ⟨-, rfl⟩ := step
  have all : s.arrived.length = s.passed.length + s.waiting.length := by
    have told := congrArg length tidy.told
    rw [length_append, length_map, length_map] at told
    exact told.symm
  exact { tidy with
    scanning := fun i scan => by
      obtain rfl := Option.some.inj scan
      exact ⟨s.waiting, [], (append_nil _).symm, meets, fun p _ => p.zero_le, fun p member => absurd member not_mem_nil,
        all.le⟩
    finished := fun none' => absurd none' (Option.some_ne_none 0) }

theorem Tidy.getDesc_waiting (tidy : s.Tidy size) {i : Nat} (member : i ∈ s.waiting) : s.getDesc i =
    { s with
      passed := s.passed ++ [body (s.rdbuf i)]
      ring := update s.ring i ⟨true, (s.ring i).eor, false, false, 0xFFF⟩ } := by
  obtain ⟨fs, ls, len, crc, room⟩ := tidy.single i member
  have own := (tidy.owner i).mpr member
  have total : ((s.rdbuf i).length + 2 ^ 32 - 4) % 2 ^ 32 = (s.rdbuf i).length - 4 := by omega
  unfold getDesc getRxdescData body
  dsimp only
  rw [if_neg (by rw [own]; exact Bool.false_ne_true), if_pos ⟨fs, ls⟩, len, total, if_pos (Nat.sub_le _ _)]

theorem Split.next {i : Nat} {ahead behind : List Nat} (split : t.Split (i + 1) ahead behind)
    (inRing : ∀ p ∈ t.waiting, p < size) {stop : Prop} [Decidable stop] (stops : stop → size ≤ i + 1)
    (scan : t.scan = if stop then none else some (i + 1)) :
    (∀ j, t.scan = some j → ∃ ahead behind, t.Split j ahead behind) ∧ (t.scan = none → t.due ≤ t.passed.length) := by
  rw [scan]
  split
  · rename_i stop
    refine ⟨fun j some' => absurd some'.symm (Option.some_ne_none j), fun _ => ?_⟩
    have none' : ahead = [] := eq_nil_iff_forall_not_mem.mpr fun p member => by
      have above := split.from' p member
      have below := inRing p (split.waiting ▸ mem_append_left _ member)
      have stopped := stops stop
      omega
    have due := split.due
    rw [none'] at due
    exact due
  · refine ⟨fun j some' => ?_, fun none' => absurd none' (Option.some_ne_none _)⟩
    cases some'
    exact ⟨ahead, behind, split⟩

theorem Tidy.scanned (fits : size ≤ rxdescArrayNum) (tidy : s.Tidy size) (step : s.step .scanned = some t) :
    t.Tidy size := by
  obtain ⟨i, scan, rfl⟩ := Option.map_eq_some_iff.mp step
  obtain ⟨ahead, behind, split⟩ := tidy.scanning i scan
  have stops : (s.ring i).eor = true ∨ i + 1 = rxdescArrayNum → size ≤ i + 1 := by
    rintro (eor | last)
    · exact ((tidy.ends i).mp eor).ge
    · exact last ▸ fits
  by_cases member : i ∈ s.waiting
  · obtain ⟨rest, rfl⟩ : ∃ rest, ahead = i :: rest := by
      have notBehind : i ∉ behind := fun here => Nat.lt_irrefl i (split.below i here)
      have here := (mem_append.mp (split.waiting ▸ member)).resolve_right notBehind
      cases ahead with
      | nil => exact absurd here not_mem_nil
      | cons first rest =>
        have above := split.from' first mem_cons_self
        rcases mem_cons.mp here with same | later
        · exact ⟨rest, same ▸ rfl⟩
        · have less := rel_of_pairwise_cons split.sorted later
          omega
    have left : s.waiting.erase i = rest ++ behind := by
      rw [split.waiting, cons_append, erase_cons_head]
    have others {p : Nat} (here : p ∈ rest ++ behind) : p ∈ s.waiting ∧ p ≠ i := by
      refine ⟨split.waiting ▸ mem_cons_of_mem i here, ?_⟩
      rcases mem_append.mp here with later | earlier
      · exact (rel_of_pairwise_cons split.sorted later).ne'
      · exact (split.below p earlier).ne
    have due := split.due
    rw [tidy.getDesc_waiting member]
    simp only [update_self, if_true, left]
    have next := @Split.next size { s with
        passed := s.passed ++ [body (s.rdbuf i)]
        ring := update s.ring i ⟨true, (s.ring i).eor, false, false, 0xFFF⟩
        waiting := rest ++ behind
        scan := if (s.ring i).eor = true ∨ i + 1 = rxdescArrayNum then none else some (i + 1) } i rest behind
      ⟨rfl, (pairwise_cons.mp split.sorted).2, fun p here => rel_of_pairwise_cons split.sorted here,
        fun p here => Nat.lt_succ_of_lt (split.below p here), by
          dsimp only
          rw [length_append, length_singleton]
          rw [length_cons] at due
          omega⟩
      (fun p here => tidy.inRing p (others here).1) _ _ stops rfl
    exact { tidy with
      ends := ends_update tidy.ends rfl
      owner := fun p => by
        dsimp only
        by_cases here : p = i
        · rw [here, update_self]
          exact iff_of_false Bool.noConfusion fun back => (others back).2 rfl
        · rw [update_of_ne here, tidy.owner p, split.waiting, cons_append, mem_cons]
          exact or_iff_right here
      inRing := fun p here => tidy.inRing p (others here).1
      single := fun p here => by
        dsimp only
        rw [update_of_ne (others here).2]
        exact tidy.single p (others here).1
      told := by
        have told := tidy.told
        rw [split.waiting, cons_append, map_cons] at told
        rw [← told, append_assoc, singleton_append]
      scanning := next.1
      finished := next.2 }
  · have own : (s.ring i).own = true := (Bool.not_eq_false _).mp ((tidy.owner i).not.mpr member)
    have same : s.getDesc i = s := by
      unfold getDesc
      dsimp only
      rw [if_pos own]
    rw [same]
    dsimp only
    rw [if_pos own, erase_of_not_mem member]
    have next := @Split.next size { s with
        scan := if (s.ring i).eor = true ∨ i + 1 = rxdescArrayNum then none else some (i + 1) } i ahead behind
      ⟨split.waiting, split.sorted, fun p here => Nat.lt_of_le_of_ne (split.from' p here) fun is =>
          member (split.waiting ▸ mem_append_left _ (is ▸ here)),
        fun p here => Nat.lt_succ_of_lt (split.below p here), split.due⟩
      tidy.inRing _ _ stops rfl
    exact { tidy with scanning := next.1, finished := next.2 }

theorem passes_of_run (positive : 0 < size) (fits : size ≤ rxdescArrayNum) {events : List Event}
    (run : Transitions.Run Step (start size) events s) : s.Passes := by
  have tidy := run.keeps (Tidy size) (fun before event after step tidy => by
    cases event with
    | filled piece len last => exact tidy.filled step.1 step.2
    | polled rxDescRing => exact tidy.polled step.1 step.2
    | scanned => exact tidy.scanned fits step.1) (start_tidy positive)
  exact tidy.passes

end Receiver

end DisasVisor.Rtl8169
