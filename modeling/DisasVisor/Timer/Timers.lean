import Mathlib.Data.Fintype.Basic
import DisasVisor.Lib.Searches
import DisasVisor.Lib.Transitions

/-!
Timers of the VMM (`core/timer.c`). Every function is one section under `timer_lock`; the thread
drops the lock between taking a due timer from the list and calling its callback.
-/

namespace DisasVisor.Timer

open Searches

def maxTimer : Nat := 128

abbrev Handle := Fin maxTimer

variable {κ δ : Type}

structure TimerData (κ δ : Type) where
  enable : Bool
  settime : UInt64
  interval : UInt64
  callback : κ
  data : δ

structure Timers (κ δ : Type) where
  td : Handle → TimerData κ δ
  list1TimerOn : List Handle
  list1TimerOff : List Handle
  list1TimerFree : List Handle
  timerThreadRun : Bool

namespace Timers

variable (s : Timers κ δ)

def update (p : Handle) (entry : TimerData κ δ) : Timers κ δ := { s with td := Function.update s.td p entry }

def timerNew (callback : κ) (data : δ) : Option Handle × Timers κ δ :=
  match s.list1TimerFree with
  | [] => (none, s)
  | p :: rest =>
    let s := { s with list1TimerFree := rest }
    let s := s.update p { s.td p with enable := false, callback, data }
    (some p, { s with list1TimerOff := s.list1TimerOff ++ [p] })

def waitsLonger (time interval : UInt64) (d : Handle) : Bool :=
  (s.td d).interval > time - (s.td d).settime && (s.td d).interval - (time - (s.td d).settime) > interval

def unlink (p : Handle) : Timers κ δ :=
  if (s.td p).enable then { s with list1TimerOn := s.list1TimerOn.erase p }
  else { s with list1TimerOff := s.list1TimerOff.erase p }

def timerSet (time : UInt64) (p : Handle) (interval : UInt64) : Timers κ δ :=
  let s := s.unlink p
  let s := s.update p { s.td p with enable := true, settime := time, interval }
  { s with
    list1TimerOn := insertBefore (s.waitsLonger time interval) p s.list1TimerOn
    timerThreadRun := true }

def timerFree (p : Handle) : Timers κ δ :=
  let s := s.unlink p
  let s := s.update p { s.td p with enable := false }
  { s with list1TimerFree := s.list1TimerFree ++ [p] }

def due (time : UInt64) (p : Handle) : Bool := (s.td p).enable && time - (s.td p).settime ≥ (s.td p).interval

def timerThread (time : UInt64) : Timers κ δ × Option (Handle × κ × δ) :=
  match s.list1TimerOn with
  | [] => (s, none)
  | p :: rest =>
    let call := s.due time p
    let s := { s with list1TimerOn := rest }
    let s := if call then s.update p { s.td p with enable := false } else s
    let s :=
      if (s.td p).enable then { s with list1TimerOn := p :: s.list1TimerOn }
      else { s with list1TimerOff := s.list1TimerOff ++ [p] }
    (s, if call then some (p, (s.td p).callback, (s.td p).data) else none)

def timerInitGlobal (memory : Handle → TimerData κ δ) : Timers κ δ where
  td := memory
  list1TimerOn := []
  list1TimerOff := []
  list1TimerFree := (List.finRange maxTimer).foldl (fun list p => p :: list) []
  timerThreadRun := false

end Timers

structure Setting where
  handle : Handle
  settime : UInt64
  interval : UInt64
  deriving DecidableEq

structure Call (κ δ : Type) where
  handle : Handle
  callback : κ
  data : δ
  setting : Nat
  deriving DecidableEq

inductive Phase (κ δ : Type)
  | loop
  | calling (call : Call κ δ)
  | inside

/-- The timers, the lock as left by the last section, the clock and the timer thread. `latest`,
`settings` and `started` only record what happened. -/
structure System (κ δ : Type) where
  timers : Timers κ δ
  timerLock : Bool
  clock : UInt64
  thread : Phase κ δ
  latest : Handle → Nat
  settings : List Setting
  started : List (Call κ δ × UInt64)

inductive Event (κ δ : Type)
  | timerNew (callback : κ) (data : δ)
  | timerSet (p : Handle) (interval : UInt64)
  | timerFree (p : Handle)
  | timerThread
  | callback
  | returns
  | tick (time : UInt64)

namespace System

variable (s : System κ δ)

def initial (memory : Handle → TimerData κ δ) (clock : UInt64) : System κ δ where
  timers := Timers.timerInitGlobal memory
  timerLock := false
  clock := clock
  thread := .loop
  latest := fun _ => 0
  settings := []
  started := []

def timerNew (callback : κ) (data : δ) : System κ δ :=
  match s.timers.timerNew callback data with
  | (none, timers) => { s with timers, timerLock := true }
  | (some _, timers) => { s with timers }

def timerSet (p : Handle) (interval : UInt64) : System κ δ :=
  { s with
    timers := s.timers.timerSet s.clock p interval
    latest := Function.update s.latest p s.settings.length
    settings := s.settings ++ [⟨p, s.clock, interval⟩] }

def timerThread : System κ δ :=
  match s.timers.timerThread s.clock with
  | (timers, none) => { s with timers }
  | (timers, some (p, callback, data)) => { s with timers, thread := .calling ⟨p, callback, data, s.latest p⟩ }

def step : Event κ δ → Option (System κ δ)
  | .timerNew callback data => if s.timerLock then none else some (s.timerNew callback data)
  | .timerSet p interval => if s.timerLock ∨ p ∈ s.timers.list1TimerFree then none else some (s.timerSet p interval)
  | .timerFree p =>
    if s.timerLock ∨ p ∈ s.timers.list1TimerFree then none
    else some { s with timers := s.timers.timerFree p }
  | .timerThread =>
    match s.thread with
    | .loop => if s.timerLock ∨ ¬s.timers.timerThreadRun then none else some s.timerThread
    | _ => none
  | .callback =>
    match s.thread with
    | .calling call => some { s with thread := .inside, started := s.started ++ [(call, s.clock)] }
    | _ => none
  | .returns =>
    match s.thread with
    | .inside => some { s with thread := .loop }
    | _ => none
  | .tick time => if s.clock ≤ time then some { s with clock := time } else none

def Step (before : System κ δ) (event : Event κ δ) (after : System κ δ) : Prop := before.step event = some after

end System

/-!
Every section under `timer_lock` keeps each timer on one list, the timers that are on in the order
of their expiry.
-/

open List

namespace Timers

variable {κ δ : Type} {s : Timers κ δ} {clock time interval : UInt64} {p q : Handle}

def expiry (s : Timers κ δ) (p : Handle) : Nat := (s.td p).settime.toNat + (s.td p).interval.toNat

@[simp] theorem update_td (entry : TimerData κ δ) : (s.update p entry).td = Function.update s.td p entry := rfl

theorem waitsLonger_iff (past : (s.td p).settime ≤ time) :
    s.waitsLonger time interval p = true ↔ time.toNat + interval.toNat < s.expiry p := by
  rw [UInt64.le_iff_toNat_le] at past
  have elapsed := UInt64.toNat_sub_of_le time (s.td p).settime (UInt64.le_iff_toNat_le.mpr past)
  simp only [waitsLonger, Bool.and_eq_true, decide_eq_true_eq, gt_iff_lt]
  constructor
  · rintro ⟨running, longer⟩
    have remaining := UInt64.toNat_sub_of_le _ _ (UInt64.le_of_lt running)
    rw [UInt64.lt_iff_toNat_lt] at running longer
    simp only [expiry]
    omega
  · intro later
    simp only [expiry] at later
    have running : time - (s.td p).settime < (s.td p).interval := by
      rw [UInt64.lt_iff_toNat_lt]
      omega
    have remaining := UInt64.toNat_sub_of_le _ _ (UInt64.le_of_lt running)
    refine ⟨running, ?_⟩
    rw [UInt64.lt_iff_toNat_lt]
    omega

theorem due_iff (enabled : (s.td p).enable = true) (past : (s.td p).settime ≤ time) :
    s.due time p = true ↔ s.expiry p ≤ time.toNat := by
  have elapsed := UInt64.toNat_sub_of_le time (s.td p).settime past
  rw [UInt64.le_iff_toNat_le] at past
  simp only [due, enabled, Bool.true_and, decide_eq_true_eq, ge_iff_le, UInt64.le_iff_toNat_le, expiry]
  omega

structure Sound (s : Timers κ δ) (clock : UInt64) : Prop where
  lists : (s.list1TimerOn ++ s.list1TimerOff ++ s.list1TimerFree).Perm (List.finRange maxTimer)
  enabled : ∀ p ∈ s.list1TimerOn, (s.td p).enable = true
  disabled : ∀ p ∈ s.list1TimerOff, (s.td p).enable = false
  past : ∀ p ∈ s.list1TimerOn, (s.td p).settime ≤ clock
  sorted : s.list1TimerOn.Pairwise fun p q => s.expiry p ≤ s.expiry q

structure Loose (s : Timers κ δ) (clock : UInt64) (p : Handle) : Prop where
  lists : (p :: (s.list1TimerOn ++ s.list1TimerOff ++ s.list1TimerFree)).Perm (List.finRange maxTimer)
  enabled : ∀ q ∈ s.list1TimerOn, (s.td q).enable = true
  disabled : ∀ q ∈ s.list1TimerOff, (s.td q).enable = false
  past : ∀ q ∈ s.list1TimerOn, (s.td q).settime ≤ clock
  sorted : s.list1TimerOn.Pairwise fun q r => s.expiry q ≤ s.expiry r

theorem Sound.nodup (sound : s.Sound clock) : (s.list1TimerOn ++ s.list1TimerOff ++ s.list1TimerFree).Nodup :=
  sound.lists.nodup_iff.mpr (nodup_finRange maxTimer)

theorem Sound.some_list (sound : s.Sound clock) (p : Handle) :
    p ∈ s.list1TimerOn ∨ p ∈ s.list1TimerOff ∨ p ∈ s.list1TimerFree := by
  have member := sound.lists.mem_iff.mpr (mem_finRange p)
  simpa [or_assoc] using member

theorem Sound.on_iff (sound : s.Sound clock) : p ∈ s.list1TimerOn ↔ p ∉ s.list1TimerFree ∧ (s.td p).enable = true := by
  have nodup := sound.nodup
  rw [nodup_append'] at nodup
  constructor
  · intro on
    exact ⟨nodup.2.2 (mem_append_left _ on), sound.enabled p on⟩
  · rintro ⟨taken, enabled⟩
    rcases sound.some_list p with on | off | free
    · exact on
    · simp [sound.disabled p off] at enabled
    · exact absurd free taken

section

variable (loose : s.Loose clock p)
include loose

theorem Loose.outside : p ∉ s.list1TimerOn ∧ p ∉ s.list1TimerOff ∧ p ∉ s.list1TimerFree := by
  have nodup := loose.lists.nodup_iff.mpr (nodup_finRange maxTimer)
  rw [nodup_cons] at nodup
  simpa [not_or, and_assoc] using nodup.1

theorem Loose.update (entry : TimerData κ δ) : (s.update p entry).Loose clock p := by
  have outside := loose.outside
  have other : ∀ q, q ≠ p → (s.update p entry).td q = s.td q :=
    fun q differs => by rw [update_td, Function.update_of_ne differs]
  have on : ∀ q ∈ s.list1TimerOn, q ≠ p := by
    rintro q member rfl
    exact outside.1 member
  refine ⟨loose.lists, ?_, ?_, ?_, ?_⟩
  · intro q member
    rw [other q (on q member)]
    exact loose.enabled q member
  · intro q member
    rw [other q fun same => outside.2.1 (same ▸ member)]
    exact loose.disabled q member
  · intro q member
    rw [other q (on q member)]
    exact loose.past q member
  · refine loose.sorted.imp_of_mem ?_
    intro q r first second order
    rw [expiry, expiry, other q (on q first), other r (on r second)]
    exact order

theorem Loose.off (disabled : (s.td p).enable = false) :
    Sound { s with list1TimerOff := s.list1TimerOff ++ [p] } clock := by
  refine ⟨?_, loose.enabled, ?_, loose.past, loose.sorted⟩
  · refine List.Perm.trans ?_ loose.lists
    rw [← append_assoc, append_assoc _ [p], singleton_append]
    exact perm_middle
  · intro q member
    rcases mem_append.mp member with before | last
    · exact loose.disabled q before
    · rwa [mem_singleton.mp last]

theorem Loose.free : Sound { s with list1TimerFree := s.list1TimerFree ++ [p] } clock := by
  refine ⟨?_, loose.enabled, loose.disabled, loose.past, loose.sorted⟩
  refine List.Perm.trans ?_ loose.lists
  rw [← append_assoc]
  exact perm_append_singleton p _

theorem Loose.on {stop : Handle → Bool} (enabled : (s.td p).enable = true) (past : (s.td p).settime ≤ clock)
    (stops : ∀ d ∈ s.list1TimerOn, (stop d = true ↔ s.expiry p < s.expiry d)) (run : Bool) :
    Sound { s with
      list1TimerOn := insertBefore stop p s.list1TimerOn, timerThreadRun := run } clock := by
  refine ⟨?_, ?_, loose.disabled, ?_, ?_⟩
  · refine List.Perm.trans ?_ loose.lists
    rw [← cons_append, ← cons_append]
    exact ((insertBefore_perm _ _ _).append_right _).append_right _
  · intro q member
    rcases mem_insertBefore.mp member with rfl | before
    · exact enabled
    · exact loose.enabled q before
  · intro q member
    rcases mem_insertBefore.mp member with rfl | before
    · exact past
    · exact loose.past q before
  · have same : ∀ d ∈ s.list1TimerOn, stop d = decide (s.expiry p < s.expiry d) := by
      intro d member
      rw [Bool.eq_iff_iff, stops d member, decide_eq_true_iff]
    rw [insertBefore_congr same]
    exact insertBefore_sorted s.expiry p loose.sorted

end

theorem Sound.unlink (sound : s.Sound clock) (taken : p ∉ s.list1TimerFree) : (s.unlink p).Loose clock p := by
  have place := sound.on_iff (p := p)
  simp only [Timers.unlink]
  split
  · rename_i enabled
    have on := place.mpr ⟨taken, enabled⟩
    refine ⟨?_, ?_, sound.disabled, ?_, ?_⟩
    · refine List.Perm.trans ?_ sound.lists
      rw [← cons_append, ← cons_append]
      exact ((perm_cons_erase on).symm.append_right _).append_right _
    · exact fun q member => sound.enabled q (mem_of_mem_erase member)
    · exact fun q member => sound.past q (mem_of_mem_erase member)
    · exact sound.sorted.sublist erase_sublist
  · rename_i disabled
    have off : p ∈ s.list1TimerOff := by
      rcases sound.some_list p with on | off | free
      · exact absurd (sound.enabled p on) disabled
      · exact off
      · exact absurd free taken
    refine ⟨?_, sound.enabled, ?_, sound.past, sound.sorted⟩
    · refine List.Perm.trans ?_ sound.lists
      rw [← cons_append]
      refine List.Perm.append_right _ ?_
      exact perm_middle.symm.trans ((perm_cons_erase off).symm.append_left _)
    · exact fun q member => sound.disabled q (mem_of_mem_erase member)

theorem unlink_td : (s.unlink p).td = s.td := by
  simp only [Timers.unlink]
  split <;> rfl

section

variable (sound : s.Sound clock)
include sound

theorem Sound.timerNew (callback : κ) (data : δ) : (s.timerNew callback data).2.Sound clock := by
  simp only [Timers.timerNew]
  split
  · exact sound
  · rename_i p rest free
    have loose : Loose { s with list1TimerFree := rest } clock p := by
      refine ⟨?_, sound.enabled, sound.disabled, sound.past, sound.sorted⟩
      have lists := sound.lists
      rw [free] at lists
      exact perm_middle.symm.trans lists
    refine (loose.update _).off ?_
    simp [Timers.update]

theorem Sound.timerSet (taken : p ∉ s.list1TimerFree) (interval : UInt64) :
    (s.timerSet clock p interval).Sound clock := by
  have loose := sound.unlink taken
  have set := loose.update { (s.unlink p).td p with enable := true, settime := clock, interval }
  refine set.on ?_ ?_ ?_ true
  · simp [Timers.update]
  · simp [Timers.update]
  · intro d member
    rw [waitsLonger_iff (set.past d member)]
    simp [expiry, Timers.update]

theorem Sound.timerFree (taken : p ∉ s.list1TimerFree) : (s.timerFree p).Sound clock :=
  ((sound.unlink taken).update _).free

theorem Sound.timerThread_cases :
    (s.timerThread clock = (s, none)) ∨
    ∃ p rest, s.list1TimerOn = p :: rest ∧ s.expiry p ≤ clock.toNat ∧
      (s.timerThread clock).1.list1TimerOn = rest ∧
      (s.timerThread clock).1.list1TimerFree = s.list1TimerFree ∧
      (∀ q, q ≠ p → (s.timerThread clock).1.td q = s.td q) ∧
      (s.timerThread clock).2 = some (p, (s.td p).callback, (s.td p).data) ∧
      (s.timerThread clock).1.Sound clock := by
  cases on : s.list1TimerOn with
  | nil => exact .inl (by simp [Timers.timerThread, on])
  | cons p rest =>
    have member : p ∈ s.list1TimerOn := by simp [on]
    have enabled := sound.enabled p member
    have dueIff := due_iff enabled (sound.past p member)
    cases due : s.due clock p with
    | false =>
      refine .inl ?_
      simp only [Timers.timerThread, on, due, enabled, Bool.false_eq_true, if_false, if_true]
      rw [← on]
    | true =>
      refine .inr ⟨p, rest, rfl, dueIff.mp due, ?_⟩
      have loose : Loose { s with list1TimerOn := rest } clock p := by
        have lists := sound.lists
        have sorted := sound.sorted
        rw [on] at lists sorted
        refine ⟨lists, ?_, sound.disabled, ?_, (pairwise_cons.mp sorted).2⟩
        · exact fun q later => sound.enabled q (by simp [on, later])
        · exact fun q later => sound.past q (by simp [on, later])
      have after := (loose.update { s.td p with enable := false }).off (by simp [Timers.update])
      simp only [Timers.timerThread, on, due, if_true, Timers.update, Function.update_self,
        Bool.false_eq_true, if_false, true_and]
      refine ⟨?_, after⟩
      exact fun q differs => Function.update_of_ne differs _ _

theorem Sound.tick (later : clock ≤ time) : s.Sound time :=
  ⟨sound.lists, sound.enabled, sound.disabled,
    fun p member => UInt64.le_trans (sound.past p member) later, sound.sorted⟩

end

theorem sound_timerInitGlobal (memory : Handle → TimerData κ δ) : (timerInitGlobal memory).Sound clock := by
  refine ⟨?_, ?_, ?_, ?_, ?_⟩
  · simp only [timerInitGlobal, nil_append]
    have reversed : ∀ (handles acc : List Handle),
        handles.foldl (fun list p => p :: list) acc = handles.reverse ++ acc := by
      intro handles
      induction handles with
      | nil => simp
      | cons first rest ih => simp [ih]
    rw [reversed, append_nil]
    exact reverse_perm _
  all_goals simp [timerInitGlobal]

end Timers

end DisasVisor.Timer
