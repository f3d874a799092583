import Mathlib.Algebra.BigOperators.Fin
import DisasVisor.Lib.Transitions
import DisasVisor.Lib.Indices

/-!
The tables of `core/process.c` and `core/msg.c`: the processes with their message descriptors, and
the registered names. Each function is one section under `process_lock` or `msg_lock`.
-/

namespace DisasVisor.Process

abbrev Pid := Fin 32

abbrev Desc := Fin 32

def numOfMsgdscrecv : Nat := 8

def pagesize : Nat := 4096

structure MsgdscData where
  pid : Pid
  gen : Int
  dsc : Desc
  func : UInt64

def increment (gen : Int) : Int := if gen = 2147483647 then -2147483648 else gen + 1

def MsgdscData.unused (m : MsgdscData) : Bool := m.pid = 0 ∧ m.gen = 0

structure ProcessData where
  valid : Bool
  mmPhys : Nat
  gen : Int
  running : Nat
  msgdsc : Desc → MsgdscData
  exitflag : Bool
  setlimit : Bool
  stacksize : Int
  short : setlimit = true ∨ 0 ≤ stacksize ∧ stacksize ≤ 0x20000000

abbrev Name := List UInt8

structure MsgData where
  name : Name
  pid : Pid
  gen : Int
  desc : Desc

structure Tables where
  process : Pid → ProcessData
  msgDataUsed : List MsgData

structure Builtin where
  name : Name
  stacksize : Int
  entry : UInt64
  short : stacksize ≤ 0x20000000

def clearmsgdsc : Desc → MsgdscData := fun _ => ⟨0, 0, 0, 0⟩

namespace Tables

variable (t : Tables)

def setProcess (pid : Pid) (p : ProcessData) : Tables := { t with process := Function.update t.process pid p }

def setMsgdsc (pid : Pid) (desc : Desc) (m : MsgdscData) : Tables :=
  t.setProcess pid { t.process pid with msgdsc := Function.update (t.process pid).msgdsc desc m }

def findname (name : Name) : Option MsgData := t.msgDataUsed.find? fun d => d.name = name

def msgRegister (name : Name) (pid : Pid) (gen : Int) (desc : Desc) : Option Tables :=
  match t.findname name with
  | some _ => none
  | none => some { t with msgDataUsed := t.msgDataUsed ++ [⟨name.take 15, pid, gen, desc⟩] }

def msgUnregisterall (pid : Pid) : Tables := { t with msgDataUsed := t.msgDataUsed.filter fun d => d.pid ≠ pid }

def msgUnregister2 (pid : Pid) (desc : Desc) : Int × Tables :=
  (if t.msgDataUsed.any fun d => d.pid = pid ∧ d.desc = desc then 0 else -1,
    { t with msgDataUsed := t.msgDataUsed.filter fun d => ¬(d.pid = pid ∧ d.desc = desc) })

def unusedMsgdsc (pid : Pid) (count : Nat) : Option Desc :=
  (List.finRange 32).find? fun i => i < count ∧ ((t.process pid).msgdsc i).unused

def msgopen2 (pid mpid : Pid) (mgen : Int) (mdesc : Desc) : Int × Tables :=
  match t.unusedMsgdsc pid 32 with
  | none => (-1, t)
  | some i => ((i : Nat), t.setMsgdsc pid i { (t.process pid).msgdsc i with pid := mpid, gen := mgen, dsc := mdesc })

def msgopen (pid : Pid) (name : Name) : Int × Tables :=
  match t.findname name with
  | none => (-1, t)
  | some d => t.msgopen2 pid d.pid d.gen d.desc

def msgsetfunc (pid : Pid) (desc : Desc) (func : UInt64) : UInt64 × Tables :=
  (((t.process pid).msgdsc desc).func, t.setMsgdsc pid desc { (t.process pid).msgdsc desc with func })

def msgregister (pid : Pid) (name : Name) (func : UInt64) : Int × Tables :=
  match (List.finRange 32).find? fun i => ((t.process pid).msgdsc i).func = 0 with
  | none => (-1, t)
  | some i =>
    match t.msgRegister name pid (t.process pid).gen i with
    | none => (-1, t)
    | some t => ((i : Nat), t.setMsgdsc pid i { (t.process pid).msgdsc i with func })

def msgclose (pid : Pid) (desc : Desc) : Tables :=
  t.setMsgdsc pid desc { (t.process pid).msgdsc desc with pid := 0, gen := 0 }

def msgsenddesc (frompid : Pid) (todesc senddesc : Desc) : Int × Tables :=
  let dest := (t.process frompid).msgdsc todesc
  if (t.process dest.pid).valid ∧ (t.process dest.pid).gen = dest.gen then
    match t.unusedMsgdsc dest.pid numOfMsgdscrecv with
    | none => (-1, t)
    | some i =>
      let sent := (t.process frompid).msgdsc senddesc
      ((i : Nat), t.setMsgdsc dest.pid i { (t.process dest.pid).msgdsc i with
        pid := sent.pid, gen := sent.gen, dsc := sent.dsc })
  else (-1, t)

def msgunregister (pid : Pid) (desc : Desc) : Int × Tables :=
  (t.setMsgdsc pid desc { (t.process pid).msgdsc desc with func := 0 }).msgUnregister2 pid desc

def newProcess (p : ProcessData) (phys : Nat) (bin : Builtin) : ProcessData where
  valid := true
  mmPhys := phys
  gen := increment p.gen
  running := 0
  msgdsc := clearmsgdsc
  exitflag := false
  setlimit := false
  stacksize := if bin.stacksize > pagesize then bin.stacksize else pagesize
  short := by
    have short := bin.short
    right
    unfold pagesize
    split <;> omega

/-- `process_new` up to its call of `_msgopen_2`, with the arguments of that. After a failed load the
entry of the kernel gets the function. -/
def processNew (phys : Nat) (bin : Builtin) : Option (Pid × Int × Tables) :=
  match (List.finRange 32).find? fun pid => pid ≠ 0 ∧ ¬(t.process pid).valid with
  | none => none
  | some pid =>
    let new := newProcess (t.process pid) phys bin
    let loaded : Bool := bin.entry ≠ 0
    let t := t.setProcess pid { new with valid := loaded }
    let pid := if loaded then pid else 0
    some (pid, new.gen, t.setMsgdsc pid 0 { (t.process pid).msgdsc 0 with func := bin.entry })

def newprocess (frompid : Pid) (builtins : List Builtin) (phys : Nat) (name : Name) : Int × Tables :=
  match builtins.find? fun p => p.name = name with
  | none => (-1, t)
  | some bin =>
    match t.processNew phys bin with
    | none => (-1, t)
    | some (pid, gen, t) => t.msgopen2 frompid pid gen 0

/-- What `cleanup` does to the tables; the address space is freed too. -/
def cleanup (pid : Pid) : Tables :=
  let t := t.setProcess pid { t.process pid with gen := increment (t.process pid).gen }
  let t := t.msgUnregisterall pid
  t.setProcess pid { t.process pid with valid := false }

def setExitflag (pid : Pid) : Tables := t.setProcess pid { t.process pid with exitflag := true }

def processInitGlobal : Tables where
  process pid :=
    { valid := pid = 0, mmPhys := 0, gen := 1, running := 0, msgdsc := clearmsgdsc,
      exitflag := false, setlimit := false, stacksize := 0, short := by decide }
  msgDataUsed := []

end Tables

/-!
Messages between processes: threads call processes through their descriptors, one call inside of the
other, and `process_lock` is free between the steps.
-/

structure Target where
  pid : Pid
  gen : Int
  dsc : Desc

def MsgdscData.target (m : MsgdscData) : Target := ⟨m.pid, m.gen, m.dsc⟩

def MsgData.target (d : MsgData) : Target := ⟨d.pid, d.gen, d.desc⟩

structure Frame where
  pid : Pid
  oldpid : Pid
  mmPhys : Nat

inductive Held
  | nothing
  | toOpen (who : Pid) (target : Target)
  | toSend (target : Target)

/-- `currentcpu->pid`, the calls from the innermost on, and the address space. -/
structure Thread where
  pid : Pid
  frames : List Frame
  mmPhys : Nat
  held : Held

def Thread.Acts (thread : Thread) (who : Pid) : Prop := who = 0 ∨ thread.frames ≠ [] ∧ who = thread.pid

instance (thread : Thread) (who : Pid) : Decidable (thread.Acts who) :=
  decidable_of_iff (who = 0 ∨ thread.frames.isEmpty = false ∧ who = thread.pid) (by
    simp [Thread.Acts])

/-- A section under a lock. `msgFindname` and `processNew` are followed by `msgopen2`, and
`readMsgdsc` by `callMsgfunc1`. -/
inductive Action
  | msgsetfunc (who : Pid) (desc : Desc) (func : UInt64)
  | msgregister (who : Pid) (name : Name) (func : UInt64)
  | msgUnregister2 (who : Pid) (desc : Desc)
  | msgFindname (who : Pid) (name : Name)
  | processNew (who : Pid) (phys : Nat) (bin : Builtin)
  | msgopen2
  | msgclose (who : Pid) (desc : Desc)
  | msgsenddesc (who : Pid) (todesc senddesc : Desc)
  | readMsgdsc (who : Pid) (desc : Desc)
  | callMsgfunc1 (mapped : Bool)
  | exitprocess
  | callret

namespace Tables

variable (t : Tables)

def enter (pid : Pid) : Tables := t.setProcess pid { t.process pid with running := (t.process pid).running + 1 }

/-- The end of a call: `cleanup` after the last one of a process that has exited. -/
def cleanupExited (pid : Pid) : Tables :=
  if (t.process pid).running = 0 ∧ (t.process pid).exitflag then t.cleanup pid else t

def leave (pid : Pid) : Tables :=
  (t.setProcess pid { t.process pid with running := (t.process pid).running - 1 }).cleanupExited pid

def Delivers (target : Target) : Prop :=
  (t.process target.pid).valid = true ∧ (t.process target.pid).gen = target.gen ∧
    ((t.process target.pid).msgdsc target.dsc).func ≠ 0

instance (target : Target) : Decidable (t.Delivers target) := inferInstanceAs (Decidable (_ ∧ _ ∧ _))

end Tables

/-- `births` counts the calls of `process_new` that took a process; the code has no such variable. -/
structure System (n : Nat) where
  tables : Tables
  threads : Fin n → Thread
  births : Pid → Nat

namespace System

variable {n : Nat} (s : System n)

def initial (n : Nat) : System n where
  tables := Tables.processInitGlobal
  threads := fun _ => ⟨0, [], 1, .nothing⟩
  births := fun _ => 0

def setThread (tid : Fin n) (thread : Thread) : System n := { s with threads := Function.update s.threads tid thread }

def set (tables : Tables) (tid : Fin n) (held : Held) : System n :=
  { s with tables }.setThread tid { s.threads tid with held }

def call (tid : Fin n) (target : Target) (mapped : Bool) : System n :=
  let thread := s.threads tid
  if ¬s.tables.Delivers target then s.set s.tables tid .nothing
  else if target.pid = 0 then s.set s.tables tid .nothing
  else if !mapped then s.set (s.tables.cleanupExited target.pid) tid .nothing
  else
    { s with tables := s.tables.enter target.pid }.setThread tid
      { pid := target.pid
        frames := ⟨target.pid, thread.pid, thread.mmPhys⟩ :: thread.frames
        mmPhys := (s.tables.process target.pid).mmPhys
        held := .nothing }

def act (tid : Fin n) : Action → Option (System n)
  | .msgsetfunc who desc func =>
    if (s.threads tid).Acts who then some (s.set (s.tables.msgsetfunc who desc func).2 tid .nothing)
    else none
  | .msgregister who name func =>
    if (s.threads tid).Acts who ∧ name.length ≤ 15 then
      some (s.set (s.tables.msgregister who name func).2 tid .nothing)
    else none
  | .msgUnregister2 who desc =>
    if (s.threads tid).Acts who then some (s.set (s.tables.msgUnregister2 who desc).2 tid .nothing)
    else none
  | .msgFindname who name =>
    if (s.threads tid).Acts who then
      match s.tables.findname name with
      | none => some s
      | some d => some (s.set s.tables tid (.toOpen who d.target))
    else none
  | .processNew who phys bin =>
    if (s.threads tid).Acts who then
      match s.tables.processNew phys bin with
      | none => some s
      | some (pid, gen, tables) =>
        some { s.set tables tid (.toOpen who ⟨pid, gen, 0⟩) with
          births := fun pid =>
            if (tables.process pid).gen = (s.tables.process pid).gen then s.births pid
            else s.births pid + 1 }
    else none
  | .msgclose who desc =>
    if (s.threads tid).Acts who then some (s.set (s.tables.msgclose who desc) tid .nothing) else none
  | .msgsenddesc who todesc senddesc =>
    if (s.threads tid).Acts who then
      some (s.set (s.tables.msgsenddesc who todesc senddesc).2 tid .nothing)
    else none
  | .readMsgdsc who desc =>
    if (s.threads tid).Acts who then
      some (s.set s.tables tid (.toSend ((s.tables.process who).msgdsc desc).target))
    else none
  | .exitprocess =>
    if (s.threads tid).frames = [] then none
    else some (s.set (s.tables.setExitflag (s.threads tid).pid) tid .nothing)
  | .callret =>
    match (s.threads tid).frames with
    | [] => none
    | frame :: frames =>
      some ({ s with tables := s.tables.leave frame.pid }.setThread tid ⟨frame.oldpid, frames, frame.mmPhys, .nothing⟩)
  | .msgopen2 => none
  | .callMsgfunc1 _ => none

def step (tid : Fin n) (action : Action) : Option (System n) :=
  match (s.threads tid).held with
  | .nothing => s.act tid action
  | .toOpen who target =>
    match action with
    | .msgopen2 => some (s.set (s.tables.msgopen2 who target.pid target.gen target.dsc).2 tid .nothing)
    | _ => none
  | .toSend target =>
    match action with
    | .callMsgfunc1 mapped => some (s.call tid target mapped)
    | _ => none

end System

end DisasVisor.Process
