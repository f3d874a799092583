import Mathlib.Data.Fintype.Basic
import DisasVisor.Lib.Transitions

/-!
The thread lists of `core/thread.c`. Each section that holds `thread_lock` is one function on
the state, and a run interleaves the sections of all CPUs.
-/

namespace DisasVisor.Thread

abbrev Tid := Fin 256

inductive ThreadState
  | exit | run | willStop | stop
  deriving DecidableEq

structure ThreadData where
  state : ThreadState
  cpunum : Int
  boot : Bool
  stack : UInt64
  pid : Int
  syscallstack : UInt64
  processSwitch : UInt64

def cpunumAny : Int := -1

inductive Phase
  | running
  | waking (tid : Tid)
  | exiting
  | panicked
  deriving DecidableEq

/-- `currentcpu`, with the process mapping that `mm_process_switch` exchanges. `tid` is `none`
until `thread_init_pcpu` has run on the CPU. -/
structure Pcpu where
  tid : Option Tid
  phase : Phase
  stackaddr : UInt64
  pid : Int
  syscallstack : UInt64
  processSwitch : UInt64

structure Scheduler where
  td : Tid → ThreadData
  tdFree : List Tid
  tdRunnable : List Tid
  oldStack : UInt64
  pcpu : Nat → Pcpu

namespace Scheduler

def setThread (s : Scheduler) (tid : Tid) (d : ThreadData) : Scheduler := { s with td := Function.update s.td tid d }

def setPcpu (s : Scheduler) (cpu : Nat) (p : Pcpu) : Scheduler := { s with pcpu := Function.update s.pcpu cpu p }

def setPhase (s : Scheduler) (cpu : Nat) (phase : Phase) : Scheduler := s.setPcpu cpu { s.pcpu cpu with phase := phase }

def current (s : Scheduler) (cpu : Nat) : Option Tid := (s.pcpu cpu).tid

def setState (s : Scheduler) (tid : Tid) (state : ThreadState) : Scheduler :=
  s.setThread tid { s.td tid with state := state }

end Scheduler

def threadDataInit (stack : UInt64) (cpunum : Int) (boot : Bool) : ThreadData :=
  { state := .run, cpunum := cpunum, boot := boot, stack := stack, pid := 0, syscallstack := 0,
    processSwitch := 1 }

def threadDataSaveAndLoad (s : Scheduler) (cpu : Nat) (oldtid newtid : Tid) : Scheduler :=
  let here := s.pcpu cpu
  let new := s.td newtid
  (s.setThread oldtid { s.td oldtid with
      stack := here.stackaddr, pid := here.pid, syscallstack := here.syscallstack,
      processSwitch := here.processSwitch }).setPcpu cpu
    { here with tid := some newtid, stackaddr := new.stack, pid := new.pid,
                syscallstack := new.syscallstack, processSwitch := new.processSwitch }

def suits (s : Scheduler) (cpu : Nat) (d : Tid) : Bool := (s.td d).cpunum == cpunumAny || (s.td d).cpunum == cpu

def putBack (s : Scheduler) (cpu : Nat) (oldtid : Tid) : Scheduler :=
  match (s.td oldtid).state with
  | .exit => { s with oldStack := (s.td oldtid).stack, tdFree := s.tdFree ++ [oldtid] }
  | .run => { s with tdRunnable := s.tdRunnable ++ [oldtid] }
  | .willStop => s.setState oldtid .stop
  | .stop => s.setPhase cpu .panicked

def freeOldStack (s : Scheduler) (cpu : Nat) : Scheduler := { s.setPhase cpu .running with oldStack := 0 }

def listDelRunnable (s : Scheduler) (d : Tid) : Scheduler := { s with tdRunnable := s.tdRunnable.erase d }

/-- `schedule` of thread `oldtid`. The lock is held over `thread_switch` until `switched`, so it
is one section. -/
def schedule (s : Scheduler) (cpu : Nat) (oldtid : Tid) : Scheduler :=
  let s := freeOldStack s cpu
  match s.tdRunnable.find? (suits s cpu) with
  | none => s
  | some d => putBack (threadDataSaveAndLoad (listDelRunnable s d) cpu oldtid d) cpu oldtid

def threadNew0 (s : Scheduler) (cpu : Nat) (stack : UInt64) : Scheduler :=
  match s.tdFree with
  | [] => s.setPhase cpu .panicked
  | d :: tdFree =>
    { s.setThread d (threadDataInit stack cpunumAny false) with
      tdFree := tdFree, tdRunnable := s.tdRunnable ++ [d] }

def threadWakeup (s : Scheduler) (cpu : Nat) (tid : Tid) : Scheduler :=
  let woken := s.setState tid .run
  match (s.td tid).state with
  | .run => woken
  | .willStop => woken
  | .stop => woken.setPhase cpu (.waking tid)
  | .exit => woken.setPhase cpu .panicked

def threadWakeupAdd (s : Scheduler) (cpu : Nat) (tid : Tid) : Scheduler :=
  { s.setPhase cpu .running with tdRunnable := s.tdRunnable ++ [tid] }

def threadWillStop (s : Scheduler) (cpu : Nat) (tid : Tid) : Scheduler :=
  let stopping := s.setState tid .willStop
  match (s.td tid).state with
  | .run => stopping
  | .willStop => stopping
  | .stop => stopping.setPhase cpu .panicked
  | .exit => stopping.setPhase cpu .panicked

def threadExit (s : Scheduler) (cpu : Nat) (tid : Tid) : Scheduler :=
  let exited := s.setState tid .exit
  match (s.td tid).state with
  | .exit => exited.setPhase cpu .exiting
  | .run => exited.setPhase cpu .exiting
  | .willStop => exited.setPhase cpu .exiting
  | .stop => exited.setPhase cpu .panicked

def threadInitGlobal : Scheduler where
  td _ := { state := .exit, cpunum := 0, boot := false, stack := 0, pid := 0, syscallstack := 0,
            processSwitch := 0 }
  tdFree := List.finRange 256
  tdRunnable := []
  oldStack := 0
  pcpu _ := { tid := none, phase := .running, stackaddr := 0, pid := 0, syscallstack := 0,
              processSwitch := 1 }

def threadInitPcpu (s : Scheduler) (cpu : Nat) : Scheduler :=
  match s.tdFree with
  | [] => s.setPhase cpu .panicked
  | d :: tdFree =>
    { (s.setThread d (threadDataInit 0 cpu true)).setPcpu cpu
        { s.pcpu cpu with tid := some d } with
      tdFree := tdFree }

inductive Section
  | initPcpu (cpu : Nat)
  | schedule (cpu : Nat)
  | new (cpu : Nat) (stack : UInt64)
  | wakeup (cpu : Nat) (tid : Tid)
  | wakeupAdd (cpu : Nat)
  | willStop (cpu : Nat)
  | exit (cpu : Nat)
  deriving DecidableEq

/-- A section taken by the thread that is current on its CPU. `thread_wakeup` is only called on
threads that have not exited. -/
inductive Step : Scheduler → Section → Scheduler → Prop
  | initPcpu {s cpu} : s.current cpu = none → (s.pcpu cpu).phase = .running →
      Step s (.initPcpu cpu) (threadInitPcpu s cpu)
  | schedule {s cpu tid} : s.current cpu = some tid → (s.pcpu cpu).phase = .running →
      Step s (.schedule cpu) (schedule s cpu tid)
  | exitSchedule {s cpu tid} : s.current cpu = some tid → (s.pcpu cpu).phase = .exiting →
      Step s (.schedule cpu) (schedule s cpu tid)
  | new {s cpu tid} (stack : UInt64) : s.current cpu = some tid →
      (s.pcpu cpu).phase = .running → Step s (.new cpu stack) (threadNew0 s cpu stack)
  | wakeup {s cpu tid} (target : Tid) : s.current cpu = some tid →
      (s.pcpu cpu).phase = .running → (s.td target).state ≠ .exit →
      Step s (.wakeup cpu target) (threadWakeup s cpu target)
  | wakeupAdd {s cpu target} : (s.pcpu cpu).phase = .waking target →
      Step s (.wakeupAdd cpu) (threadWakeupAdd s cpu target)
  | willStop {s cpu tid} : s.current cpu = some tid → (s.pcpu cpu).phase = .running →
      Step s (.willStop cpu) (threadWillStop s cpu tid)
  | exit {s cpu tid} : s.current cpu = some tid → (s.pcpu cpu).phase = .running →
      Step s (.exit cpu) (threadExit s cpu tid)

def Reachable (s : Scheduler) : Prop := ∃ sections, Transitions.Run Step threadInitGlobal sections s

end DisasVisor.Thread
