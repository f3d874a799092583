import Mathlib.Data.List.Sort
import Mathlib.Algebra.Group.Nat.Defs

/-!
The timers of `SeKernel.c` on the one-shot timer of the system. A tick is a millisecond of `SeTick64`.
-/

namespace DisasVisor.Vpn.KernelTimers

open List

structure Entry where
  id : Nat
  tick : Nat
  deriving DecidableEq

structure Armed where
  began : Nat
  set : Nat
  time : Nat
  deriving DecidableEq

/-- `SE_TIMER` and what is around it: the clock, the allocations and the ones that are freed, the system timer, and
how often it has fired without `SeTimerCallback` having the lock yet. -/
structure SeTimer where
  clock : Nat
  timerEntryList : List Entry
  currentTimerTargetTick : Nat
  made : Nat
  freed : List Nat
  armed : Option Armed
  fired : Nat

def SeTimer.tick (t : SeTimer) (e : Entry) : Option Nat := if e.id ∈ t.freed then none else some e.tick

def SeTimer.seSysSetTimer (t : SeTimer) (began : Nat) (interval : UInt32) : SeTimer :=
  { t with armed := some ⟨began, t.clock, t.clock + interval.toNat⟩ }

/-- `SeTimerAdjust`; the clock goes on before its reading and behind it. -/
def SeTimer.seTimerAdjust (t : SeTimer) (began before behind : Nat) : Option SeTimer :=
  match t.timerEntryList with
  | [] => some t
  | e :: _ =>
    (t.tick e).map fun tick =>
      if tick ≠ t.currentTimerTargetTick then
        let now := t.clock + before
        let interval64 := if tick > now then tick - now else 0
        let interval := UInt32.ofNat interval64
        { t with clock := now + behind, currentTimerTargetTick := tick }.seSysSetTimer began
          (if interval = 0 then 1 else interval)
      else t

def SeTimer.seTimerSet (t : SeTimer) (interval : UInt32) (before behind : Nat) : Option SeTimer :=
  let targetTick := t.clock + interval.toNat
  (t.timerEntryList.mapM t.tick).bind fun ticks =>
    if targetTick ∈ ticks then some t
    else
      { t with
        made := t.made + 1
        timerEntryList := t.timerEntryList.orderedInsert (fun x y => x.tick ≤ y.tick) ⟨t.made, targetTick⟩
      }.seTimerAdjust t.clock before behind

def SeTimer.delete (t : SeTimer) (e : Entry) : Option SeTimer :=
  (t.tick e).map fun _ => { t with timerEntryList := t.timerEntryList.erase e, freed := t.freed ++ [e.id] }

def SeTimer.expired (t : SeTimer) : List Entry := t.timerEntryList.filter fun e => e.tick ≤ t.clock

/-- `SeTimerCallback` up to the callback, which it calls with the clock if an entry has expired. -/
def SeTimer.seTimerCallback (t : SeTimer) (before behind : Nat) : Option SeTimer :=
  (t.timerEntryList.mapM t.tick).bind fun _ =>
    (t.expired.foldlM SeTimer.delete t).bind fun t' =>
      { t' with
        currentTimerTargetTick := if t.expired = [] then t'.currentTimerTargetTick else 0
        fired := t'.fired - 1
      }.seTimerAdjust t.clock before behind

inductive Event
  | advance (ticks : Nat)
  | set (interval : UInt32) (before behind : Nat)
  | fire
  | callback (before behind : Nat)

def Event.Allowed (t : SeTimer) : Event → Prop
  | .fire => ∃ a, t.armed = some a ∧ a.time ≤ t.clock
  | .callback _ _ => 0 < t.fired
  | _ => True

def SeTimer.step (t : SeTimer) : Event → Option SeTimer
  | .advance ticks => some { t with clock := t.clock + ticks }
  | .set interval before behind => t.seTimerSet interval before behind
  | .fire => some { t with armed := none, fired := t.fired + 1 }
  | .callback before behind => t.seTimerCallback before behind

def seTimerNew : SeTimer := ⟨1, [], 0, 0, [], none, 0⟩

/-- What a finite run does; `none` if an entry is used after it is freed. -/
def SeTimer.run (t : SeTimer) (events : List Event) : Option SeTimer := events.foldlM SeTimer.step t

def SeTimer.Allows (t : SeTimer) : List Event → Prop
  | [] => True
  | event :: events => event.Allowed t ∧ ∀ t', t.step event = some t' → t'.Allows events

structure Forever (s : Nat → SeTimer) (events : Nat → Event) : Prop where
  start : s 0 = seTimerNew
  allowed : ∀ n, (events n).Allowed (s n)
  step : ∀ n, (s n).step (events n) = some (s (n + 1))

/-- The clock goes on, the system timer fires or is set again, and `SeTimerCallback` gets the lock. -/
structure Fair (s : Nat → SeTimer) (events : Nat → Event) : Prop where
  clock : ∀ tick, ∃ n, tick ≤ (s n).clock
  fires : ∀ n a, (s n).armed = some a → ∃ m, n ≤ m ∧ (s m).armed ≠ some a
  calls : ∀ n, 0 < (s n).fired → ∃ m before behind, n ≤ m ∧ events m = .callback before behind

structure Armed.For (a : Armed) (tick : Nat) : Prop where
  order : a.began ≤ a.set
  reached : tick ≤ a.time
  soon : a.time ≤ tick + 1 + (a.set - a.began)

structure InTime (t : SeTimer) : Prop where
  armed : ∀ e rest, t.timerEntryList = e :: rest → t.fired = 0 → ∃ a, t.armed = some a ∧ a.For e.tick
  sorted : t.timerEntryList.Pairwise fun x y => x.tick < y.tick

structure Entries (t : SeTimer) : Prop where
  sorted : t.timerEntryList.Pairwise fun x y => x.tick < y.tick
  apart : (t.timerEntryList.map Entry.id).Nodup
  live : ∀ e ∈ t.timerEntryList, e.id ∉ t.freed ∧ e.id < t.made
  old : ∀ i ∈ t.freed, i < t.made
  clock : 0 < t.clock
  ticks : ∀ e ∈ t.timerEntryList, 0 < e.tick ∧ e.tick < t.clock + 2 ^ 32
  idle : t.timerEntryList = [] → t.currentTimerTargetTick = 0

structure Good (t : SeTimer) : Prop extends Entries t where
  waits : ∀ e rest, t.timerEntryList = e :: rest → t.currentTimerTargetTick = e.tick ∧
    ((∃ a, t.armed = some a ∧ a.For e.tick) ∨ 0 < t.fired ∧ e.tick ≤ t.clock)

variable {t t' : SeTimer} {e : Entry} {interval : UInt32} {before behind : Nat} {event : Event} {events : List Event}

theorem Good.inTime (good : Good t) : InTime t where
  armed := fun e rest is none' => by
    rcases (good.waits e rest is).2 with armed | ⟨fired, -⟩
    · exact armed
    · omega
  sorted := good.sorted

theorem good_new : Good seTimerNew where
  sorted := List.Pairwise.nil
  apart := nodup_nil
  live := fun _ member => (not_mem_nil member).elim
  old := fun _ member => (not_mem_nil member).elim
  clock := Nat.one_pos
  ticks := fun _ member => (not_mem_nil member).elim
  idle := fun _ => rfl
  waits := fun _ _ impossible => by cases impossible

theorem mapM_tick {entries : List Entry} (live : ∀ e ∈ entries, e.id ∉ t.freed) :
    entries.mapM t.tick = some (entries.map Entry.tick) := by
  induction entries with
  | nil => rfl
  | cons e entries ih =>
    have first : t.tick e = some e.tick := if_neg (live e mem_cons_self)
    rw [mapM_cons, first, ih fun other member => live other (mem_cons_of_mem _ member)]
    rfl

structure Open (t : SeTimer) (began : Nat) : Prop extends Entries t where
  start : began ≤ t.clock
  waits : ∀ e rest, t.timerEntryList = e :: rest →
    (t.currentTimerTargetTick = e.tick → (∃ a, t.armed = some a ∧ a.For e.tick) ∨ 0 < t.fired ∧ e.tick ≤ t.clock) ∧
      (t.currentTimerTargetTick ≠ e.tick → began ≤ e.tick)

theorem Open.adjust {began : Nat} (open' : Open t began) (before behind : Nat) :
    ∃ t', t.seTimerAdjust began before behind = some t' ∧ Good t' ∧ t'.timerEntryList = t.timerEntryList ∧
      t.clock ≤ t'.clock ∧ t'.fired = t.fired ∧
      ((∀ e rest, t.timerEntryList = e :: rest → t.currentTimerTargetTick = e.tick) → t' = t) := by
  unfold SeTimer.seTimerAdjust
  split
  · rename_i list
    exact ⟨t, rfl, ⟨open'.toEntries, fun e rest is => by rw [list] at is; cases is⟩, rfl, le_rfl, rfl, fun _ => rfl⟩
  · rename_i e rest list
    have member : e ∈ t.timerEntryList := by
      rw [list]
      exact mem_cons_self
    have first : t.tick e = some e.tick := if_neg (open'.live e member).1
    obtain ⟨positive, near⟩ := open'.ticks e member
    obtain ⟨same, other⟩ := open'.waits e rest list
    rw [first, Option.map_some]
    by_cases differs : e.tick ≠ t.currentTimerTargetTick
    · rw [if_pos differs]
      have start := open'.start
      have started := other (Ne.symm differs)
      have interval64 : (if e.tick > t.clock + before then e.tick - (t.clock + before) else 0) =
          e.tick - (t.clock + before) := by
        split
        · rfl
        · omega
      dsimp only
      rw [interval64]
      have whole : (UInt32.ofNat (e.tick - (t.clock + before))).toNat = e.tick - (t.clock + before) := by
        rw [UInt32.toNat_ofNat']
        exact Nat.mod_eq_of_lt (by omega)
      have interval : (if UInt32.ofNat (e.tick - (t.clock + before)) = 0 then 1
          else UInt32.ofNat (e.tick - (t.clock + before))).toNat = max 1 (e.tick - (t.clock + before)) := by
        by_cases zero : UInt32.ofNat (e.tick - (t.clock + before)) = 0
        · have none' := UInt32.toNat_zero
          have one := UInt32.toNat_one
          rw [zero, none'] at whole
          rw [if_pos zero, one]
          omega
        · rw [if_neg zero, whole]
          have left : e.tick - (t.clock + before) ≠ 0 := fun none' => zero (by rw [none']; rfl)
          omega
      refine ⟨_, rfl, ⟨⟨open'.sorted, open'.apart, open'.live, open'.old, ?_, ?_, ?_⟩, ?_⟩, rfl, ?_, rfl, ?_⟩
      · show 0 < t.clock + before + behind
        have positive' := open'.clock
        omega
      · intro other' member'
        obtain ⟨positive', near'⟩ := open'.ticks other' member'
        exact ⟨positive', show other'.tick < t.clock + before + behind + 2 ^ 32 by omega⟩
      · intro none'
        cases list.symm.trans none'
      · intro e' rest' is
        cases list.symm.trans is
        refine ⟨rfl, .inl ⟨_, rfl, ?_, ?_, ?_⟩⟩
        · show began ≤ t.clock + before + behind
          omega
        · show e.tick ≤ t.clock + before + behind + _
          rw [interval]
          omega
        · show t.clock + before + behind + _ ≤ e.tick + 1 + (t.clock + before + behind - began)
          rw [interval]
          omega
      · show t.clock ≤ t.clock + before + behind
        omega
      · intro kept
        exact absurd (kept e rest list).symm differs
    · rw [if_neg differs]
      have same' := (not_not.mp differs).symm
      refine ⟨t, rfl, ⟨open'.toEntries, fun e' rest' is => ?_⟩, rfl, le_rfl, rfl, fun _ => rfl⟩
      cases list.symm.trans is
      exact ⟨same', same same'⟩

theorem pairwise_orderedInsert {entries : List Entry} (sorted : entries.Pairwise fun x y => x.tick < y.tick)
    (other : ∀ x ∈ entries, x.tick ≠ e.tick) :
    (entries.orderedInsert (fun x y => x.tick ≤ y.tick) e).Pairwise fun x y => x.tick < y.tick := by
  induction entries with
  | nil => exact pairwise_singleton ..
  | cons x entries ih =>
    obtain ⟨above, rest⟩ := pairwise_cons.mp sorted
    have differs := other x mem_cons_self
    unfold List.orderedInsert
    by_cases before : e.tick ≤ x.tick
    · rw [if_pos before]
      refine pairwise_cons.mpr ⟨fun y member => ?_, sorted⟩
      rcases mem_cons.mp member with rfl | later
      · omega
      · have := above y later
        omega
    · rw [if_neg before]
      refine pairwise_cons.mpr ⟨fun y member => ?_, ih rest fun y member => other y (mem_cons_of_mem _ member)⟩
      rcases (mem_orderedInsert _).mp member with rfl | later
      · omega
      · exact above y later

theorem Good.seTimerSet (good : Good t) (interval : UInt32) (before behind : Nat) :
    ∃ t', t.seTimerSet interval before behind = some t' ∧ Good t' ∧
      (∀ e ∈ t.timerEntryList, e ∈ t'.timerEntryList) ∧
      (∃ e ∈ t'.timerEntryList, e.tick = t.clock + interval.toNat) ∧ t.clock ≤ t'.clock ∧ t'.fired = t.fired ∧
      ((∃ e ∈ t.timerEntryList, e.tick ≤ t.clock) → t'.armed = t.armed) := by
  unfold SeTimer.seTimerSet
  rw [mapM_tick fun e member => (good.live e member).1, Option.bind_some]
  by_cases found : t.clock + interval.toNat ∈ t.timerEntryList.map Entry.tick
  · rw [if_pos found]
    exact ⟨t, rfl, good, fun _ => id, mem_map.mp found, le_rfl, rfl, fun _ => rfl⟩
  · rw [if_neg found]
    have other (x : Entry) (member : x ∈ t.timerEntryList) : x.tick ≠ t.clock + interval.toNat :=
      fun same => found (mem_map.mpr ⟨x, member, same⟩)
    have clock := good.clock
    have small := interval.toNat_lt
    have perm := perm_orderedInsert (fun x y : Entry => x.tick ≤ y.tick) ⟨t.made, t.clock + interval.toNat⟩
      t.timerEntryList
    have mem {x : Entry} : x ∈ t.timerEntryList.orderedInsert (fun x y => x.tick ≤ y.tick)
        ⟨t.made, t.clock + interval.toNat⟩ ↔ x = ⟨t.made, t.clock + interval.toNat⟩ ∨ x ∈ t.timerEntryList :=
      mem_orderedInsert _
    have open' : Open { t with
        made := t.made + 1
        timerEntryList := t.timerEntryList.orderedInsert (fun x y => x.tick ≤ y.tick)
          ⟨t.made, t.clock + interval.toNat⟩ } t.clock := by
      refine ⟨⟨pairwise_orderedInsert good.sorted other, ?_, ?_, ?_, clock, ?_, ?_⟩, le_rfl, ?_⟩
      · refine (perm.map Entry.id).nodup_iff.mpr (nodup_cons.mpr ⟨fun member => ?_, good.apart⟩)
        obtain ⟨x, member, same⟩ := mem_map.mp member
        exact absurd (good.live x member).2 (by rw [same]; exact Nat.lt_irrefl _)
      · intro x member
        rcases mem.mp member with rfl | member
        · exact ⟨fun freed => Nat.lt_irrefl _ (good.old _ freed), Nat.lt_succ_self _⟩
        · exact ⟨(good.live x member).1, Nat.lt_succ_of_lt (good.live x member).2⟩
      · exact fun i freed => Nat.lt_succ_of_lt (good.old i freed)
      · intro x member
        rcases mem.mp member with rfl | member
        · dsimp only
          omega
        · exact good.ticks x member
      · intro none'
        have member := mem.mpr (.inl rfl)
        dsimp only at none'
        rw [none'] at member
        exact (not_mem_nil member).elim
      · intro x rest is
        dsimp only at is ⊢
        cases list : t.timerEntryList with
        | nil =>
          rw [list] at is
          cases is
          exact ⟨fun same => absurd (good.idle list) (by rw [same]; dsimp only; omega), fun _ => Nat.le_add_right ..⟩
        | cons first others =>
          obtain ⟨current, waits⟩ := good.waits first others list
          have differs := other first (by rw [list]; exact mem_cons_self)
          rw [list, List.orderedInsert] at is
          by_cases earlier : t.clock + interval.toNat ≤ first.tick
          · rw [if_pos earlier] at is
            cases is
            exact ⟨fun same => absurd (current.symm.trans same) differs, fun _ => Nat.le_add_right ..⟩
          · rw [if_neg earlier] at is
            cases is
            exact ⟨fun _ => waits, fun changed => absurd current changed⟩
    obtain ⟨t', adjusts, good', list, later, fired, kept⟩ := open'.adjust before behind
    refine ⟨t', adjusts, good', fun x member => ?_, ⟨_, by rw [list]; exact mem.mpr (.inl rfl), rfl⟩, later, fired, ?_⟩
    · rw [list]
      exact mem.mpr (.inr member)
    · rintro ⟨x, member, due⟩
      rw [kept]
      intro head rest is
      dsimp only at is ⊢
      cases list : t.timerEntryList with
      | nil =>
        rw [list] at member
        exact (not_mem_nil member).elim
      | cons first others =>
        have order : first.tick ≤ x.tick := by
          have sorted := good.sorted
          rw [list] at member sorted
          rcases mem_cons.mp member with rfl | later
          · exact le_rfl
          · exact le_of_lt ((pairwise_cons.mp sorted).1 x later)
        have differs := other first (by rw [list]; exact mem_cons_self)
        rw [list, List.orderedInsert, if_neg (by dsimp only; omega)] at is
        cases is
        exact (good.waits head others list).1

theorem foldlM_delete {entries : List Entry} : ∀ {t : SeTimer}, (entries.map Entry.id).Nodup →
    (∀ e ∈ entries, e.id ∉ t.freed) → entries.foldlM SeTimer.delete t = some { t with
      timerEntryList := entries.foldl List.erase t.timerEntryList
      freed := t.freed ++ entries.map Entry.id } := by
  induction entries with
  | nil =>
    intro t _ _
    rw [map_nil, append_nil]
    rfl
  | cons e entries ih =>
    intro t apart live
    obtain ⟨first, rest⟩ := nodup_cons.mp apart
    have alive : t.tick e = some e.tick := if_neg (live e mem_cons_self)
    have deletes : t.delete e = some { t with
        timerEntryList := t.timerEntryList.erase e, freed := t.freed ++ [e.id] } := by
      rw [SeTimer.delete, alive, Option.map_some]
    rw [foldlM_cons, deletes, Option.bind_eq_bind, Option.bind_some, ih rest, append_assoc]
    · rfl
    · intro other member freed
      rcases mem_append.mp freed with before | now
      · exact live other (mem_cons_of_mem _ member) before
      · exact first (mem_singleton.mp now ▸ mem_map_of_mem member)

theorem Good.seTimerCallback (good : Good t) (before behind : Nat) :
    ∃ t', t.seTimerCallback before behind = some t' ∧ Good t' ∧
      (∀ e ∈ t.timerEntryList, t.clock < e.tick → e ∈ t'.timerEntryList) ∧ t.clock ≤ t'.clock := by
  have sub : t.expired.Sublist t.timerEntryList := filter_sublist
  have mem {e : Entry} : e ∈ t.expired ↔ e ∈ t.timerEntryList ∧ e.tick ≤ t.clock := by
    rw [SeTimer.expired, mem_filter, decide_eq_true_iff]
  have nodup : t.timerEntryList.Nodup := List.Nodup.of_map _ good.apart
  have left : t.expired.foldl List.erase t.timerEntryList = t.timerEntryList.filter (· ∉ t.expired) := by
    rw [← diff_eq_foldl, nodup.sdiff_eq_filter]
  have remains {e : Entry} : e ∈ t.timerEntryList.filter (· ∉ t.expired) ↔ e ∈ t.timerEntryList ∧ t.clock < e.tick := by
    rw [mem_filter, decide_eq_true_iff, mem]
    constructor
    · rintro ⟨member, late⟩
      exact ⟨member, Nat.lt_of_not_le fun due => late ⟨member, due⟩⟩
    · rintro ⟨member, late⟩
      exact ⟨member, fun due => absurd due.2 (Nat.not_le.mpr late)⟩
  unfold SeTimer.seTimerCallback
  rw [mapM_tick fun e member => (good.live e member).1, Option.bind_some,
    foldlM_delete (good.apart.sublist (sub.map _)) fun e member => (good.live e (sub.subset member)).1,
    Option.bind_some, left]
  have open' : Open { t with
      timerEntryList := t.timerEntryList.filter (· ∉ t.expired)
      freed := t.freed ++ t.expired.map Entry.id
      currentTimerTargetTick := if t.expired = [] then t.currentTimerTargetTick else 0
      fired := t.fired - 1 } t.clock := by
    refine ⟨⟨good.sorted.sublist filter_sublist, good.apart.sublist (filter_sublist.map _), ?_, ?_,
      good.clock, fun e member => good.ticks e (remains.mp member).1, ?_⟩, le_rfl, ?_⟩
    · intro e member
      obtain ⟨here, late⟩ := remains.mp member
      obtain ⟨live, made⟩ := good.live e here
      refine ⟨fun freed => ?_, made⟩
      rcases mem_append.mp freed with earlier | now
      · exact live earlier
      · obtain ⟨other, taken, same⟩ := mem_map.mp now
        have is := inj_on_of_nodup_map good.apart (sub.subset taken) here same
        rw [is] at taken
        exact absurd (mem.mp taken).2 (Nat.not_le.mpr late)
    · intro i freed
      rcases mem_append.mp freed with earlier | now
      · exact good.old i earlier
      · obtain ⟨other, taken, same⟩ := mem_map.mp now
        rw [← same]
        exact (good.live other (sub.subset taken)).2
    · intro none'
      dsimp only at none' ⊢
      by_cases quiet : t.expired = []
      · rw [if_pos quiet]
        apply good.idle
        rw [← none', quiet]
        simp
      · rw [if_neg quiet]
    · intro e rest is
      dsimp only at is ⊢
      have late : t.clock < e.tick := (remains.mp (by rw [is]; exact mem_cons_self)).2
      refine ⟨fun same => .inl ?_, fun _ => le_of_lt late⟩
      by_cases quiet : t.expired = []
      · have whole : t.timerEntryList.filter (· ∉ t.expired) = t.timerEntryList := by
          rw [quiet]
          simp
        rw [whole] at is
        rcases (good.waits e rest is).2 with armed | ⟨-, due⟩
        · exact armed
        · omega
      · rw [if_neg quiet] at same
        omega
  obtain ⟨t', adjusts, good', list, later, -, -⟩ := open'.adjust before behind
  refine ⟨t', adjusts, good', fun e member late => ?_, later⟩
  rw [list]
  exact remains.mpr ⟨member, late⟩

/-- What a step does that is allowed: the clock does not go back, an entry stays that no callback takes, and a setting
stays that has not fired while an entry is due. -/
structure Stepped (t : SeTimer) (event : Event) (t' : SeTimer) : Prop where
  good : Good t'
  later : t.clock ≤ t'.clock
  kept : ∀ e ∈ t.timerEntryList,
    (∀ before behind, event = .callback before behind → t.clock < e.tick) → e ∈ t'.timerEntryList
  armed : ∀ e ∈ t.timerEntryList, e.tick ≤ t.clock → t.fired = 0 → t'.fired = 0 → t'.armed = t.armed

theorem Good.step (good : Good t) (allowed : event.Allowed t) : ∃ t', t.step event = some t' ∧ Stepped t event t' := by
  cases event with
  | advance ticks =>
    refine ⟨_, rfl, ⟨⟨good.sorted, good.apart, good.live, good.old, Nat.lt_of_lt_of_le good.clock (Nat.le_add_right ..),
      fun e member => ?_, good.idle⟩, fun e rest is => ?_⟩, Nat.le_add_right .., fun _ member _ => member,
      fun _ _ _ _ _ => rfl⟩
    · obtain ⟨positive, near⟩ := good.ticks e member
      exact ⟨positive, show e.tick < t.clock + ticks + 2 ^ 32 by omega⟩
    · obtain ⟨current, armed | ⟨fired, due⟩⟩ := good.waits e rest is
      · exact ⟨current, .inl armed⟩
      · exact ⟨current, .inr ⟨fired, show e.tick ≤ t.clock + ticks by omega⟩⟩
  | set interval before behind =>
    obtain ⟨t', sets, good', stays, -, later, -, same⟩ := good.seTimerSet interval before behind
    exact ⟨t', sets, good', later, fun e member _ => stays e member, fun e member due _ _ => same ⟨e, member, due⟩⟩
  | fire =>
    obtain ⟨a, armed, time⟩ := allowed
    refine ⟨_, rfl, ⟨⟨good.sorted, good.apart, good.live, good.old, good.clock, good.ticks, good.idle⟩,
      fun e rest is => ?_⟩, le_rfl, fun _ member _ => member, fun _ _ _ _ impossible => by cases impossible⟩
    obtain ⟨current, ⟨a', armed', for'⟩ | ⟨fired, due⟩⟩ := good.waits e rest is
    · cases armed.symm.trans armed'
      exact ⟨current, .inr ⟨Nat.succ_pos _, le_trans for'.reached time⟩⟩
    · exact ⟨current, .inr ⟨Nat.succ_pos _, due⟩⟩
  | callback before behind =>
    obtain ⟨t', calls, good', stays, later⟩ := good.seTimerCallback before behind
    refine ⟨t', calls, good', later, fun e member late => stays e member (late before behind rfl),
      fun _ _ _ none' _ => ?_⟩
    have fired : 0 < t.fired := allowed
    omega

theorem Good.run (good : Good t) (allows : t.Allows events) : ∃ t', t.run events = some t' ∧ Good t' := by
  induction events generalizing t with
  | nil => exact ⟨t, rfl, good⟩
  | cons event events ih =>
    obtain ⟨t', steps, stepped⟩ := good.step allows.1
    obtain ⟨last, runs, final⟩ := ih stepped.good (allows.2 t' steps)
    refine ⟨last, ?_, final⟩
    rw [SeTimer.run, foldlM_cons, steps]
    exact runs

variable {s : Nat → SeTimer} {happens : Nat → Event} {n m : Nat}

theorem Forever.good (forever : Forever s happens) : ∀ n, Good (s n)
  | 0 => by
      rw [forever.start]
      exact good_new
  | n + 1 => by
      obtain ⟨t', steps, stepped⟩ := (forever.good n).step (forever.allowed n)
      rw [Option.some.inj ((forever.step n).symm.trans steps)]
      exact stepped.good

theorem Forever.stepped (forever : Forever s happens) (n : Nat) : Stepped (s n) (happens n) (s (n + 1)) := by
  obtain ⟨t', steps, stepped⟩ := (forever.good n).step (forever.allowed n)
  rwa [Option.some.inj ((forever.step n).symm.trans steps)]

theorem Forever.called (forever : Forever s happens) (fair : Fair s happens) (member : e ∈ (s n).timerEntryList) :
    ∃ m before behind, n ≤ m ∧ happens m = .callback before behind ∧ e ∈ (s m).expired := by
  by_contra never
  have stays : ∀ k, n ≤ k → e ∈ (s k).timerEntryList := by
    intro k le
    induction k, le using Nat.le_induction with
    | base => exact member
    | succ k le ih =>
      exact (forever.stepped k).kept e ih fun before behind calls => Nat.lt_of_not_le fun due =>
        never ⟨k, before, behind, le, calls, mem_filter.mpr ⟨ih, decide_eq_true due⟩⟩
  have later : Monotone fun k => (s k).clock := monotone_nat_of_le_succ fun k => (forever.stepped k).later
  obtain ⟨late, reached⟩ := fair.clock e.tick
  have due (k : Nat) (le : max n late ≤ k) : e.tick ≤ (s k).clock := le_trans reached (later (by omega))
  -- once the clock has reached the entry there is no callback any more, so the system timer does not fire
  have quiet (k : Nat) (le : max n late ≤ k) : (s k).fired = 0 := by
    by_contra fired
    obtain ⟨m, before, behind, after, calls⟩ := fair.calls k (Nat.pos_of_ne_zero fired)
    exact never ⟨m, before, behind, by omega, calls, mem_filter.mpr
      ⟨stays m (by omega), decide_eq_true (due m (by omega))⟩⟩
  obtain ⟨a, armed⟩ : ∃ a, (s (max n late)).armed = some a := by
    have here := stays (max n late) (by omega)
    cases list : (s (max n late)).timerEntryList with
    | nil =>
      rw [list] at here
      exact (not_mem_nil here).elim
    | cons first rest =>
      obtain ⟨a, armed, -⟩ := (forever.good _).inTime.armed first rest list (quiet _ le_rfl)
      exact ⟨a, armed⟩
  obtain ⟨m, le, differs⟩ := fair.fires _ a armed
  apply differs
  clear differs
  induction m, le using Nat.le_induction with
  | base => exact armed
  | succ k le ih =>
    have same := (forever.stepped k).armed e (stays k (by omega)) (due k le) (quiet k le) (quiet (k + 1) (by omega))
    exact same.trans ih

/-- In a finite run no entry is used after it is freed, and the system timer is armed in time; in a run without an end
each tick that was set is followed by a callback that has reached it. -/
theorem timers_never_lost :
    (∀ events, seTimerNew.Allows events → ∃ t, seTimerNew.run events = some t ∧ InTime t) ∧
      ∀ s happens, Forever s happens → Fair s happens → ∀ n interval before behind,
        happens n = .set interval before behind → ∃ m before' behind', n < m ∧
          happens m = .callback before' behind' ∧ (s m).expired ≠ [] ∧ (s n).clock + interval.toNat ≤ (s m).clock := by
  refine ⟨fun events allows => ?_, fun s happens forever fair n interval before behind sets => ?_⟩
  · obtain ⟨t, runs, good⟩ := good_new.run allows
    exact ⟨t, runs, good.inTime⟩
  · have steps := forever.step n
    rw [sets] at steps
    obtain ⟨t', sets', -, -, ⟨e, member, tick⟩, -⟩ := (forever.good n).seTimerSet interval before behind
    rw [← Option.some.inj (steps.symm.trans sets')] at member
    obtain ⟨m, before', behind', later, calls, taken⟩ := forever.called fair member
    refine ⟨m, before', behind', later, calls, fun none' => not_mem_nil (none' ▸ taken), ?_⟩
    rw [← tick]
    exact of_decide_eq_true (mem_filter.mp taken).2

/-- The clock goes on by 5 between the two readings of `SeTimerSet`. -/
theorem late_setting : (seTimerNew.run [.set 0 5 0]).map (fun t => (t.timerEntryList.map Entry.tick, t.fired, t.armed)) =
    some ([1], 0, some ⟨1, 6, 7⟩) := by
  decide

end DisasVisor.Vpn.KernelTimers
