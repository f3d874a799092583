import DisasVisor.Lib.Memory
import DisasVisor.Process.Calls
import DisasVisor.Process.UserStack

/-!
The system calls of `core/process.c`: what the kernel reads and writes for a call of a process with
any number and any two arguments.
-/

namespace DisasVisor.Process

def toInt (x : UInt64) : Int := x.toUInt32.toInt32.toInt

def minusOne : UInt64 := 0xFFFFFFFFFFFFFFFF

inductive Access
  | memory (address length : Nat)
  | process (pid : Int)
  | msgdsc (pid : Pid) (desc : Int)

/-- How a call ends: with a value, by `callret`, in a function of the VMM or of a process that gets the
message, in a panic, with what lies outside of an array, or never. -/
inductive Outcome
  | value (rax : UInt64)
  | callret (retval : Int)
  | kernel (func : UInt64)
  | user (pid : Pid) (func sp : UInt64)
  | panics
  | outside
  | endless
  deriving DecidableEq

structure Ran where
  outcome : Outcome
  accesses : List Access
  tables : Tables

structure Msgbuf where
  base : UInt64
  len : UInt32
  rw : Int

/-- The process that calls with its memory, and what other parts of the VMM answer: whether its stack has
room, where the buffers are mapped (0 if they are not), the pages of each process, the fuel of the search
in them, the programs, and the page of a new address space. -/
structure Caller where
  pid : Pid
  memory : Memory
  stackRoom : Bool
  mapShared : Msgbuf → UInt64
  pages : Pid → StackPages
  fuel : Nat
  builtins : List Builtin
  phys : Nat

def isRangeValid (addr : UInt64) (len : UInt32) : Bool :=
  if addr ≥ 0x40000000 then false
  else if addr + len.toUInt64 ≥ 0x40000000 then false
  else if addr < 0 then false
  else if len ≥ 0x40000000 then false
  else true

namespace Caller

variable (c : Caller) (t : Tables)

def name (addr : UInt64) (length : Nat) : Name :=
  ((c.memory.slice addr.toNat length).take (length - 1)).takeWhile fun byte => byte ≠ 0

def dword (addr : Nat) : UInt32 := UInt32.ofNat (c.memory.dword addr)

def qword (addr : Nat) : UInt64 := UInt64.ofNat (c.memory.dword addr + c.memory.dword (addr + 4) * 2 ^ 32)

def fails (accesses : List Access) : Ran := ⟨.value minusOne, accesses, t⟩

def returns (accesses : List Access) (result : Int × Tables) : Ran :=
  ⟨.value (UInt64.ofInt result.1), accesses, result.2⟩

def callMsgfunc1 (pid : Pid) (gen : Int) (desc : Desc) (bufs : List Msgbuf) : Ran :=
  if !c.stackRoom then fails t []
  else
    let target := t.process pid
    let found : List Access := [.process pid, .msgdsc pid (desc : Nat)]
    let func := (target.msgdsc desc).func
    if !target.valid then fails t [.process pid]
    else if target.gen ≠ gen then fails t found
    else if func = 0 then fails t found
    else
      let shared := bufs.map fun buf => Access.memory buf.base.toNat buf.len.toNat
      if pid = 0 then ⟨.kernel func, found ++ shared, t⟩
      else if bufs.length > 32 then fails t found
      else
        -- A process that has exited meanwhile is cleaned up on the way out.
        let left := if target.running = 0 ∧ target.exitflag then t.cleanup pid else t
        if bufs.any fun buf => c.mapShared buf = 0 then fails left (found ++ shared)
        else
          match (c.pages pid).mmProcessMapStack c.fuel (UInt32.ofInt target.stacksize) target.setlimit true with
          | none => ⟨.endless, found ++ shared, t⟩
          | some sp2 =>
            if sp2 = 0 then fails left (found ++ shared)
            else
              let used := 24 * bufs.length + 8 + 8 + 8 + 8 + 16 + 8
              ⟨.user pid func (sp2 - UInt64.ofNat used), found ++ shared ++ [.memory (sp2.toNat - used) used], t⟩

def msgsend (desc : Int) (bufs : List Msgbuf) : Ran :=
  if inside : 0 ≤ desc ∧ desc < 32 then
    let m := (t.process c.pid).msgdsc ⟨desc.toNat, by omega⟩
    let ran := c.callMsgfunc1 t m.pid m.gen m.dsc bufs
    { ran with accesses := .msgdsc c.pid desc :: ran.accesses }
  else ⟨.outside, [.msgdsc c.pid desc], t⟩

def sysNop : Ran := ⟨.value 0, [], t⟩

def sysMsgsetfunc (si di : UInt64) : Ran :=
  if (t.process c.pid).setlimit then fails t [.process c.pid.val]
  else if inside : si.toNat < 32 then
    let result := t.msgsetfunc c.pid ⟨si.toNat, inside⟩ di
    ⟨.value result.1, [.process c.pid.val, .msgdsc c.pid si.toNat], result.2⟩
  else ⟨.value 0, [.process c.pid.val], t⟩

def withName (si : UInt64) (body : Name → Int × Tables) : Ran :=
  if !isRangeValid si 16 then fails t []
  else if (t.process c.pid).setlimit then fails t [.process c.pid.val]
  else returns [.process c.pid.val, .memory si.toNat 16] (body (c.name si 16))

def sysMsgregister (si di : UInt64) : Ran := c.withName t si fun name => t.msgregister c.pid name di

def sysMsgopen (si : UInt64) : Ran := c.withName t si fun name => t.msgopen c.pid name

def sysMsgclose (si : UInt64) : Ran :=
  if inside : 0 ≤ toInt si ∧ toInt si < 32 then
    ⟨.value 0, [.msgdsc c.pid (toInt si)], t.msgclose c.pid ⟨(toInt si).toNat, by omega⟩⟩
  else fails t []

def sysMsgsendint (si : UInt64) : Ran := c.msgsend t (toInt si) []

def sysMsgret (si : UInt64) : Ran := ⟨.callret (toInt si), [], t⟩

def sysMsgsenddesc (si di : UInt64) : Ran :=
  if (t.process c.pid).setlimit then fails t [.process c.pid.val]
  else if send : 0 ≤ toInt di ∧ toInt di < 32 then
    if dest : 0 ≤ toInt si ∧ toInt si < 32 then
      let topid := ((t.process c.pid).msgdsc ⟨(toInt si).toNat, by omega⟩).pid
      returns [.process c.pid.val, .msgdsc c.pid (toInt si), .process topid.val, .msgdsc c.pid (toInt di)]
        (t.msgsenddesc c.pid ⟨(toInt si).toNat, by omega⟩ ⟨(toInt di).toNat, by omega⟩)
    else fails t [.process c.pid.val]
  else fails t [.process c.pid.val]

def sysNewprocess (si : UInt64) : Ran :=
  if (t.process c.pid).setlimit then fails t [.process c.pid.val]
  else returns [.process c.pid.val, .memory si.toNat 32] (t.newprocess c.pid c.builtins c.phys (c.name si 32))

def msgbufAt (buf : UInt64) (i : Nat) : Msgbuf where
  base := c.qword (buf.toNat + 24 * i)
  len := c.dword (buf.toNat + 24 * i + 8)
  rw := (c.dword (buf.toNat + 24 * i + 12)).toInt32.toInt

def sendbufArgs (di : UInt64) : List Access × Option (List Msgbuf) :=
  if !isRangeValid di 16 then ([], none)
  else
    let args := [Access.memory di.toNat 16]
    let bufcnt := (c.dword (di.toNat + 4)).toInt32.toInt
    let buf := c.qword (di.toNat + 8)
    if bufcnt < 0 then (args, none)
    else if !isRangeValid buf (UInt32.ofNat (24 * bufcnt.toNat)) then (args, none)
    else if bufcnt > 32 then (args, none)
    else
      let bufs := (List.range bufcnt.toNat).map (c.msgbufAt buf)
      (args ++ [.memory buf.toNat (24 * bufcnt.toNat)],
        if bufs.all fun b => b.len ≠ 0 ∧ isRangeValid b.base b.len then some bufs else none)

def sysMsgsendbuf (si di : UInt64) : Ran :=
  match c.sendbufArgs di with
  | (accesses, none) => fails t accesses
  | (accesses, some bufs) =>
    let ran := c.msgsend t (toInt si) bufs
    { ran with accesses := accesses ++ ran.accesses }

def sysMsgunregister (si : UInt64) : Ran :=
  if inside : 0 ≤ toInt si ∧ toInt si < 32 then
    returns [.msgdsc c.pid (toInt si)] (t.msgunregister c.pid ⟨(toInt si).toNat, by omega⟩)
  else fails t []

def sysExitprocess (si : UInt64) : Ran := ⟨.callret (toInt si), [.process c.pid.val], t.setExitflag c.pid⟩

def sysSetlimit (si di : UInt64) : Ran :=
  let here : List Access := [.process c.pid.val]
  if (t.process c.pid).setlimit then fails t here
  else
    let si := if si < 4096 then 4096 else si
    let di := if di < 4096 then 4096 else di
    match (c.pages c.pid).mmProcessMapStack c.fuel di.toUInt32 false false with
    | none => ⟨.endless, here, t⟩
    | some tmp =>
      if tmp = 0 then fails t here
      else if mmProcessUnmapStack tmp di.toUInt32 ≠ 0 then ⟨.panics, here, t⟩
      else ⟨.value 0, here, t.setProcess c.pid
        { t.process c.pid with setlimit := true, stacksize := toInt si, short := .inl rfl }⟩

def processSyscall (num si di : UInt64) : Ran :=
  match num.toNat with
  | 1 => sysNop t
  | 3 => c.sysMsgsetfunc t si di
  | 4 => c.sysMsgregister t si di
  | 5 => c.sysMsgopen t si
  | 6 => c.sysMsgclose t si
  | 7 => c.sysMsgsendint t si
  | 8 => sysMsgret t si
  | 9 => c.sysMsgsenddesc t si di
  | 10 => c.sysNewprocess t si
  | 11 => c.sysMsgsendbuf t si di
  | 12 => c.sysMsgunregister t si
  | 13 => c.sysExitprocess t si
  | 14 => c.sysSetlimit t si di
  | _ => ⟨.callret (-1), [.process c.pid.val], t.setExitflag c.pid⟩

end Caller

/-!
For which calls the kernel stays inside of the user area and of its arrays.
-/

open List

variable {c : Caller} {t : Tables} {num si di addr : UInt64} {len : UInt32}

def Access.Inside : Access → Prop
  | .memory address length => address + length ≤ 0x40000000
  | .process pid => 0 ≤ pid ∧ pid < 32
  | .msgdsc _ desc => 0 ≤ desc ∧ desc < 32

def InArray (desc : Int) : Prop := 0 ≤ desc ∧ desc < 32

instance (desc : Int) : Decidable (InArray desc) := inferInstanceAs (Decidable (_ ∧ _))

/-- The kernel touches only what the process may name, and unless the arguments are proper the call gives
-1 and changes nothing. -/
def Ran.Contained (ran : Ran) (t : Tables) (proper : Prop) : Prop :=
  (∀ access ∈ ran.accesses, access.Inside) ∧ (¬proper → ran.outcome = .value minusOne ∧ ran.tables = t)

namespace Caller

def Proper (c : Caller) (num si di : UInt64) : Prop :=
  match num.toNat with
  | 3 => si.toNat < 32
  | 4 => si.toNat + 16 ≤ 0x40000000
  | 5 => si.toNat + 16 ≤ 0x40000000
  | 6 => InArray (toInt si)
  | 7 => InArray (toInt si)
  | 9 => InArray (toInt si) ∧ InArray (toInt di)
  | 10 => si.toNat + 32 ≤ 0x40000000
  | 11 =>
    let bufcnt := (c.dword (di.toNat + 4)).toInt32.toInt
    let buf := c.qword (di.toNat + 8)
    InArray (toInt si) ∧ di.toNat + 16 ≤ 0x40000000 ∧ 0 ≤ bufcnt ∧ bufcnt ≤ 32 ∧
      buf.toNat + 24 * bufcnt.toNat ≤ 0x40000000 ∧
      ∀ i < bufcnt.toNat, (c.msgbufAt buf i).base.toNat + (c.msgbufAt buf i).len.toNat ≤ 0x40000000
  | 12 => InArray (toInt si)
  | _ => True

def Contained (c : Caller) (t : Tables) (num si di : UInt64) : Prop :=
  (c.processSyscall t num si di).Contained t (c.Proper num si di)

def Checked (c : Caller) (t : Tables) (num si di : UInt64) : Prop :=
  match num.toNat with
  | 3 => (t.process c.pid).setlimit = true ∨ si.toNat < 32
  | 7 => InArray (toInt si)
  | 10 => (t.process c.pid).setlimit = true ∨ si.toNat + 32 ≤ 0x40000000
  | 11 => (c.sendbufArgs di).2 = none ∨ InArray (toInt si)
  | _ => True

end Caller

theorem isRangeValid_true (valid : isRangeValid addr len = true) : addr.toNat + len.toNat < 0x40000000 := by
  unfold isRangeValid at valid
  split at valid
  · exact absurd valid Bool.false_ne_true
  · rename_i low
    split at valid
    · exact absurd valid Bool.false_ne_true
    · rename_i sum
      rw [ge_iff_le, UInt64.le_iff_toNat_le] at low sum
      have bound := len.toNat_lt
      rw [UInt64.toNat_add, UInt32.toNat_toUInt64] at sum
      simp only [UInt64.reduceToNat] at low sum
      omega

theorem ofInt_toNat {x : Int} (low : 0 ≤ x) (high : x ≤ 0x20000000) : (UInt32.ofInt x).toNat = x.toNat := by
  have small : x < 2 ^ 32 := by omega
  have below : x.toNat < UInt32.size := by
    have size : UInt32.size = 4294967296 := rfl
    omega
  unfold UInt32.ofInt
  rw [Int.emod_eq_of_lt low small]
  exact UInt32.toNat_ofNat_of_lt' below

theorem callMsgfunc1_inside (pid : Pid) (gen : Int) (desc : Desc) (bufs : List Msgbuf)
    (valid : ∀ buf ∈ bufs, buf.base.toNat + buf.len.toNat ≤ 0x40000000) (few : bufs.length ≤ 32) :
    ∀ access ∈ (c.callMsgfunc1 t pid gen desc bufs).accesses, access.Inside := by
  have one : (Access.process pid).Inside := by
    have bound := pid.isLt
    exact ⟨by omega, by omega⟩
  have found : ∀ access ∈ [Access.process pid, .msgdsc pid (desc : Nat)], access.Inside := by
    have bound := desc.isLt
    intro access member
    rcases mem_cons.mp member with rfl | last
    · exact one
    · rw [mem_singleton.mp last]
      exact ⟨by omega, by omega⟩
  have shared : ∀ access ∈ [Access.process pid, .msgdsc pid (desc : Nat)] ++
      bufs.map fun buf => Access.memory buf.base.toNat buf.len.toNat, access.Inside := by
    intro access member
    rcases mem_append.mp member with early | buffer
    · exact found access early
    · obtain ⟨buf, inside, rfl⟩ := mem_map.mp buffer
      exact valid buf inside
  unfold Caller.callMsgfunc1
  split
  · simp [Caller.fails]
  · dsimp only
    split
    · intro access member
      rw [mem_singleton.mp member]
      exact one
    · split
      · exact found
      · split
        · exact found
        · split
          · exact shared
          · split
            · exact found
            · split
              · exact shared
              · split
                · exact shared
                · rename_i sp2 search
                  split
                  · exact shared
                  · rename_i nonzero
                    intro access member
                    rcases mem_append.mp member with early | stack
                    · exact shared access early
                    · rw [mem_singleton.mp stack]
                      have small : (t.process pid).setlimit = true ∨
                          UInt32.ofInt (t.process pid).stacksize ≤ 0x20000000 := by
                        refine (t.process pid).short.imp_right fun short => ?_
                        rw [UInt32.le_iff_toNat_le, ofInt_toNat short.1 short.2]
                        simp only [UInt32.reduceToNat]
                        omega
                      rcases StackPages.mmProcessMapStack_top small search with zero | inside
                      · exact absurd zero nonzero
                      · simp only [Access.Inside]
                        omega

theorem process_inside (pid : Pid) : (Access.process pid.val).Inside := by
  have bound := pid.isLt
  exact ⟨by omega, by omega⟩

variable {ran : Ran} {proper : Prop}

theorem Ran.contained_of_proper (holds : proper) (inside : ∀ access ∈ ran.accesses, access.Inside) :
    ran.Contained t proper :=
  ⟨inside, fun improper => absurd holds improper⟩

namespace Caller

theorem fails_contained {accesses : List Access} (inside : ∀ access ∈ accesses, access.Inside) :
    (fails t accesses).Contained t proper :=
  ⟨inside, fun _ => ⟨rfl, rfl⟩⟩

theorem fails_here (c : Caller) : (fails t [.process c.pid.val]).Contained t proper := by
  apply fails_contained
  intro access member
  rw [mem_singleton.mp member]
  exact process_inside c.pid

theorem fails_nothing : (fails t []).Contained t proper := by
  apply fails_contained
  intro access member
  exact absurd member not_mem_nil

theorem msgsend_inside {desc : Int} {bufs : List Msgbuf}
    (valid : ∀ buf ∈ bufs, buf.base.toNat + buf.len.toNat ≤ 0x40000000) (few : bufs.length ≤ 32) :
    (∀ access ∈ (c.msgsend t desc bufs).accesses, access.Inside) ↔ InArray desc := by
  unfold msgsend
  split
  · rename_i inside
    refine ⟨fun _ => inside, fun _ access member => ?_⟩
    rcases mem_cons.mp member with rfl | later
    · exact inside
    · exact callMsgfunc1_inside _ _ _ bufs valid few access later
  · rename_i outside
    refine ⟨fun all => ?_, fun inside => absurd inside outside⟩
    exact all _ mem_cons_self

theorem sysMsgsetfunc_contained :
    (c.sysMsgsetfunc t si di).Contained t (si.toNat < 32) ↔ (t.process c.pid).setlimit = true ∨ si.toNat < 32 := by
  unfold sysMsgsetfunc
  split
  · rename_i limited
    exact ⟨fun _ => .inl limited, fun _ => c.fails_here⟩
  · rename_i free
    split
    · rename_i small
      refine ⟨fun _ => .inr small, fun _ => Ran.contained_of_proper small ?_⟩
      intro access member
      rcases mem_cons.mp member with rfl | later
      · exact process_inside c.pid
      · rw [mem_singleton.mp later]
        exact ⟨by omega, by omega⟩
    · rename_i large
      constructor
      · rintro ⟨-, refused⟩
        have zero := (refused large).1
        simp [minusOne] at zero
      · rintro (limited | small)
        · exact absurd limited free
        · exact absurd small large

theorem withName_contained {body : Name → Int × Tables} :
    (c.withName t si body).Contained t (si.toNat + 16 ≤ 0x40000000) := by
  unfold withName
  split
  · exact fails_nothing
  · rename_i checked
    have range : isRangeValid si 16 = true := by simpa using checked
    have inside : si.toNat + 16 ≤ 0x40000000 := by
      have bound := isRangeValid_true range
      simp only [UInt32.reduceToNat] at bound
      omega
    split
    · exact c.fails_here
    · refine Ran.contained_of_proper inside ?_
      intro access member
      rcases mem_cons.mp member with rfl | later
      · exact process_inside c.pid
      · rw [mem_singleton.mp later]
        exact inside

theorem sysMsgclose_contained : (c.sysMsgclose t si).Contained t (InArray (toInt si)) := by
  unfold sysMsgclose
  split
  · rename_i inside
    refine Ran.contained_of_proper inside ?_
    intro access member
    rw [mem_singleton.mp member]
    exact inside
  · exact fails_nothing

theorem sysMsgunregister_contained : (c.sysMsgunregister t si).Contained t (InArray (toInt si)) := by
  unfold sysMsgunregister
  split
  · rename_i inside
    refine Ran.contained_of_proper inside ?_
    intro access member
    rw [mem_singleton.mp member]
    exact inside
  · exact fails_nothing

theorem sysMsgsendint_contained : (c.sysMsgsendint t si).Contained t (InArray (toInt si)) ↔ InArray (toInt si) := by
  have accesses : (∀ access ∈ (c.msgsend t (toInt si) []).accesses, access.Inside) ↔ InArray (toInt si) :=
    msgsend_inside (fun _ member => absurd member not_mem_nil) (Nat.zero_le _)
  refine ⟨fun contained => accesses.mp contained.1, fun inside => ?_⟩
  exact Ran.contained_of_proper inside (accesses.mpr inside)

theorem sysMsgsenddesc_contained :
    (c.sysMsgsenddesc t si di).Contained t (InArray (toInt si) ∧ InArray (toInt di)) := by
  unfold sysMsgsenddesc
  split
  · exact c.fails_here
  · split
    · rename_i send
      split
      · rename_i dest
        refine Ran.contained_of_proper ⟨dest, send⟩ ?_
        simp only [returns, forall_mem_cons]
        exact ⟨process_inside _, dest, process_inside _, send,
          fun _ member => absurd member not_mem_nil⟩
      · exact c.fails_here
    · exact c.fails_here

theorem sysNewprocess_contained :
    (c.sysNewprocess t si).Contained t (si.toNat + 32 ≤ 0x40000000) ↔
      (t.process c.pid).setlimit = true ∨ si.toNat + 32 ≤ 0x40000000 := by
  unfold sysNewprocess
  split
  · rename_i limited
    exact ⟨fun _ => .inl limited, fun _ => c.fails_here⟩
  · rename_i free
    constructor
    · intro contained
      exact .inr (contained.1 (.memory si.toNat 32) (mem_cons_of_mem _ mem_cons_self))
    · rintro (limited | inside)
      · exact absurd limited free
      · refine Ran.contained_of_proper inside ?_
        simp only [returns, forall_mem_cons]
        exact ⟨process_inside _, inside, fun _ member => absurd member not_mem_nil⟩

theorem sysSetlimit_contained : (c.sysSetlimit t si di).Contained t True := by
  refine Ran.contained_of_proper trivial ?_
  have here : ∀ access ∈ [Access.process c.pid.val], access.Inside := by
    intro access member
    rw [mem_singleton.mp member]
    exact process_inside c.pid
  unfold sysSetlimit
  split
  · exact here
  · dsimp only
    generalize (if di < 4096 then (4096 : UInt64) else di) = len
    split
    · exact here
    · split
      · exact here
      · split
        · exact here
        · exact here

theorem range_inside (range : isRangeValid addr len = true) :
    addr.toNat + len.toNat ≤ 0x40000000 := (isRangeValid_true range).le

theorem msgbufs_inside (few : ¬ (c.dword (di.toNat + 4)).toInt32.toInt > 32)
    (range : isRangeValid (c.qword (di.toNat + 8))
      (UInt32.ofNat (24 * (c.dword (di.toNat + 4)).toInt32.toInt.toNat)) = true) :
    (Access.memory (c.qword (di.toNat + 8)).toNat (24 * (c.dword (di.toNat + 4)).toInt32.toInt.toNat)).Inside := by
  have array := range_inside range
  rwa [UInt32.toNat_ofNat', Nat.mod_eq_of_lt (by omega)] at array

theorem sendbufArgs_inside : ∀ access ∈ (c.sendbufArgs di).1, access.Inside := by
  unfold sendbufArgs
  split
  · exact fun access member => absurd member not_mem_nil
  · rename_i checked
    have range : isRangeValid di 16 = true := by simpa using checked
    have args : (Access.memory di.toNat 16).Inside := range_inside range
    dsimp only
    split
    · simpa using args
    · split
      · simpa using args
      · rename_i checked
        split
        · simpa using args
        · rename_i few
          have array := msgbufs_inside few (by simpa using checked)
          intro access member
          rcases mem_append.mp member with first | last
          · rw [mem_singleton.mp first]
            exact args
          · rw [mem_singleton.mp last]
            exact array

theorem sendbufArgs_some {bufs : List Msgbuf} (found : (c.sendbufArgs di).2 = some bufs) :
    (∀ buf ∈ bufs, buf.base.toNat + buf.len.toNat ≤ 0x40000000) ∧ bufs.length ≤ 32 ∧
      (InArray (toInt si) → c.Proper 11 si di) := by
  unfold sendbufArgs at found
  split at found
  · cases found
  · rename_i checked
    have args : isRangeValid di 16 = true := by simpa using checked
    dsimp only at found
    split at found
    · cases found
    · rename_i positive
      split at found
      · cases found
      · rename_i checked
        split at found
        · cases found
        · rename_i few
          have array := msgbufs_inside few (by simpa using checked)
          split at found
          · rename_i all
            have same := Option.some.inj found
            have valid : ∀ buf ∈ bufs, buf.base.toNat + buf.len.toNat ≤ 0x40000000 := by
              intro buf member
              rw [← same] at member
              have one := all_eq_true.mp all buf member
              simp only [decide_eq_true_eq] at one
              exact range_inside one.2
            refine ⟨valid, ?_, fun inside => ?_⟩
            · rw [← same, length_map, length_range]
              omega
            · refine ⟨inside, range_inside args, by omega, by omega, array, fun i bound => ?_⟩
              apply valid
              rw [← same]
              exact mem_map_of_mem (mem_range.mpr bound)
          · cases found

theorem sysMsgsendbuf_contained :
    (c.sysMsgsendbuf t si di).Contained t (c.Proper 11 si di) ↔
      (c.sendbufArgs di).2 = none ∨ InArray (toInt si) := by
  have args : ∀ access ∈ (c.sendbufArgs di).1, access.Inside := sendbufArgs_inside
  unfold sysMsgsendbuf
  cases found : c.sendbufArgs di with
  | mk accesses result =>
    rw [found] at args
    cases result with
    | none => exact ⟨fun _ => .inl rfl, fun _ => fails_contained args⟩
    | some bufs =>
      have passed : (c.sendbufArgs di).2 = some bufs := by rw [found]
      obtain ⟨valid, few, proper'⟩ := sendbufArgs_some passed
      have proper : InArray (toInt si) → c.Proper 11 si di := proper'
      have sent : (∀ access ∈ (c.msgsend t (toInt si) bufs).accesses, access.Inside) ↔
          InArray (toInt si) := msgsend_inside valid few
      constructor
      · intro contained
        refine .inr (sent.mp fun access member => ?_)
        exact contained.1 access (mem_append_right _ member)
      · rintro (none' | inside)
        · cases none'
        · refine Ran.contained_of_proper (proper inside) fun access member => ?_
          rcases mem_append.mp member with early | later
          · exact args access early
          · exact sent.mpr inside access later

theorem contained_here (c : Caller) (accesses : ran.accesses = [.process c.pid.val]) : ran.Contained t True := by
  refine Ran.contained_of_proper trivial fun access member => ?_
  rw [accesses] at member
  rw [mem_singleton.mp member]
  exact process_inside c.pid

theorem contained_nothing (accesses : ran.accesses = []) : ran.Contained t True := by
  refine Ran.contained_of_proper trivial fun access member => ?_
  rw [accesses] at member
  exact absurd member not_mem_nil

/-- A call is contained just when it does not come to an argument that nobody has checked. -/
theorem processSyscall_contained (c : Caller) (t : Tables) (num si di : UInt64) :
    c.Contained t num si di ↔ c.Checked t num si di := by
  unfold Contained Checked Proper processSyscall
  generalize num.toNat = n
  match n with
  | 0 => exact iff_of_true (contained_here c rfl) trivial
  | 1 => exact iff_of_true (contained_nothing rfl) trivial
  | 2 => exact iff_of_true (contained_here c rfl) trivial
  | 3 => exact sysMsgsetfunc_contained
  | 4 => exact iff_of_true withName_contained trivial
  | 5 => exact iff_of_true withName_contained trivial
  | 6 => exact iff_of_true sysMsgclose_contained trivial
  | 7 => exact sysMsgsendint_contained
  | 8 => exact iff_of_true (contained_nothing rfl) trivial
  | 9 => exact iff_of_true sysMsgsenddesc_contained trivial
  | 10 => exact sysNewprocess_contained
  | 11 => exact sysMsgsendbuf_contained
  | 12 => exact iff_of_true sysMsgunregister_contained trivial
  | 13 => exact iff_of_true (contained_here c rfl) trivial
  | 14 => exact iff_of_true sysSetlimit_contained trivial
  | _ + 15 => exact iff_of_true (contained_here c rfl) trivial

end Caller

def sampleCaller : Caller where
  pid := 1
  memory := fun _ => 0
  stackRoom := true
  mapShared := fun _ => 0
  pages := fun _ => ⟨fun _ => false, fun _ => false, fun _ _ _ => rfl⟩
  fuel := 0
  builtins := []
  phys := 0

/-- `sys_newprocess` reads a name at the end of the address space. -/
theorem processSyscall_breaks : ¬∀ (c : Caller) (t : Tables) (num si di : UInt64), c.Contained t num si di := by
  intro all
  have contained := all sampleCaller Tables.processInitGlobal 10 0xFFFF800000000000 0
  have inside := contained.1 (.memory 0xFFFF800000000000 32) (mem_cons_of_mem _ mem_cons_self)
  exact absurd inside (by simp [Access.Inside])

end DisasVisor.Process
