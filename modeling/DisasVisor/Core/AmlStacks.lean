import DisasVisor.Lib.SharedLists

/-!
The stacks of the AML parser in `core/acpi_dsdt.c`. Every alternative that is still open has a path, the elements it
expects and the ends of the packages around it, and they share what they have in common. What the elements stand for is
a parameter, but for those that only work on the stacks.
-/

namespace DisasVisor.Core.Aml

open SharedLists List
open Option (bind_eq_bind bind_some)

inductive Element (G : Type)
  | done
  | pkgLengthPush
  | pkgIgnore
  | pkgEnd
  | symbol (g : G)
  deriving DecidableEq

structure PathNode (G : Type) where
  element : Element G
  namelen : ℕ
  nameflag : ℕ

structure Alternative (G D : Type) where
  pathhead : Option ℕ
  bufhead : Option ℕ
  limithead : Option ℕ
  pathelement : Element G
  data : D

/-- What a case of the `switch` does: the calls of `addbuf`, or where it goes. -/
inductive Action (G : Type)
  | add (alternatives : List (List (Element G)))
  | ok
  | err
  | loop2
  | error

structure Grammar (G D S : Type) where
  amlCode : G
  initial : D
  copy : D → D
  action : G → ℕ → S → D → Action G × D
  pkgend : D → ℕ
  more : D → D → Bool
  parseok : ℕ → S → D → List (PathNode G) → S × D × List (PathNode G)

inductive Label (G D : Type)
  | loop
  | loop2 (cur : Alternative G D)
  | add (cur : Alternative G D) (alternatives : List (List (Element G)))
  | ok (cur : Alternative G D)
  | err (cur : Alternative G D)
  | returned (q : Option (Alternative G D))
  | finished
  | error (q : Option (Alternative G D))

/-- `struct parsedata` with the memory behind it. The alternatives that are allocated and freed are counted for the
statements only. -/
structure Parser (G D S : Type) where
  paths : Heap (PathNode G)
  bufs : Heap (Element G)
  limits : Heap ℕ
  head : List (Alternative G D)
  acc : List (Alternative G D)
  r : Option (Alternative G D)
  c : ℕ
  shared : S
  label : Label G D
  passes : ℕ
  allocated : ℕ
  freed : ℕ

variable {G D S : Type} (g : Grammar G D S) (ignoreError : Bool) (start stop : ℕ)

namespace Parser

def addAll (bufs : Heap (Element G)) (head : Option ℕ) : List (Element G) → Heap (Element G) × Option ℕ
  | [] => (bufs, head)
  | element :: tmp => let (bufs, head) := addAll bufs head tmp; bufs.add head element

def addbufsub [DecidableEq G] (m : Parser G D S) (cur : Alternative G D) (tmp : List (Element G)) :
    Option (Parser G D S) := do
  let paths ← m.paths.share cur.pathhead
  let top ← paths.peek cur.pathhead
  let bufs ← m.bufs.share cur.bufhead
  let limits ← m.limits.share cur.limithead
  let f := top.all fun n => n.value.element ≠ cur.pathelement
  let (paths, pathhead) :=
    if f then paths.add cur.pathhead ⟨cur.pathelement, top.elim 0 fun n => n.value.namelen, 0⟩
    else (paths, cur.pathhead)
  let (bufs, bufhead) := if f then bufs.add cur.bufhead .done else (bufs, cur.bufhead)
  let (bufs, bufhead) := addAll bufs bufhead tmp
  return { m with
    paths := paths, bufs := bufs, limits := limits, allocated := m.allocated + 1
    head := ⟨pathhead, bufhead, cur.limithead, .done, g.copy cur.data⟩ :: m.head }

def free (m : Parser G D S) (q : Alternative G D) : Option (Parser G D S) := do
  let paths ← m.paths.release m.paths.fresh q.pathhead
  let bufs ← m.bufs.release m.bufs.fresh q.bufhead
  let limits ← m.limits.release m.limits.fresh q.limithead
  return { m with paths := paths, bufs := bufs, limits := limits, freed := m.freed + 1 }

def known [DecidableEq G] (m : Parser G D S) (cur : Alternative G D) : List (Alternative G D) → Option Bool
  | [] => some false
  | q :: later => do
      let equal ← m.bufs.same (m.bufs.fresh + 1) cur.bufhead q.bufhead
      let equal ← if equal then m.limits.same (m.limits.fresh + 1) cur.limithead q.limithead else some false
      if equal && !g.more cur.data q.data then return true
      known m cur later

def getbuf (m : Parser G D S) : Parser G D S :=
  match m.head with
  | [] => { m with head := m.acc, acc := [], c := m.c + 1 }
  | _ :: _ => m

def choose (m : Parser G D S) : Parser G D S :=
  match m.head, m.r with
  | [], none => { m with label := if ignoreError then .returned none else .error none }
  | [], some q => { m with r := none, label := .returned (some q) }
  | cur :: head, none =>
    if m.c = stop then { m with head := head, r := some cur } else { m with head := head, label := .loop2 cur }
  | cur :: head, some _ => { m with head := head, label := .err cur }

def dispatch (m : Parser G D S) (cur : Alternative G D) : Element G → Option (Parser G D S)
  | .symbol e =>
    let (action, data) := g.action e m.c m.shared cur.data
    let cur := { cur with data := data }
    match action with
    | .add alternatives => some { m with label := .add cur alternatives }
    | .ok => some { m with label := .ok cur }
    | .err => some { m with label := .err cur }
    | .loop2 => some { m with label := .loop2 cur }
    | .error => some { m with label := .error (some cur) }
  | .pkgLengthPush =>
    let (limits, limithead) := m.limits.add cur.limithead (g.pkgend cur.data)
    some { m with limits := limits, label := .loop2 { cur with limithead := limithead } }
  | .pkgIgnore =>
    match cur.limithead with
    | none => some { m with label := .error (some cur) }
    | some l => do
        let (limits, _, limithead) ← m.limits.pop l
        return { m with limits := limits, label := .loop2 { cur with limithead := limithead } }
  | .pkgEnd =>
    match cur.limithead with
    | none => some { m with label := .error (some cur) }
    | some l => do
        let (limits, pkgend, limithead) ← m.limits.pop l
        let cur := { cur with limithead := limithead }
        return { m with limits := limits, label := if pkgend = m.c then .loop2 cur else .err cur }
  | .done =>
    match cur.pathhead with
    | none => some { m with label := .error (some cur) }
    | some p => do
        let (paths, _, pathhead) ← m.paths.pop p
        return { m with paths := paths, label := .loop2 { cur with pathhead := pathhead } }

def accept [DecidableEq G] (m : Parser G D S) (cur : Alternative G D) : Option (Parser G D S) := do
  let top ← m.limits.peek cur.limithead
  if top.any fun n => n.value = m.c then return { m with label := .err cur }
  if ← known g m cur m.acc then return { m with label := .err cur }
  let nodes ← m.paths.toList m.paths.fresh cur.pathhead
  let (shared, data, values) := g.parseok m.c m.shared cur.data (nodes.map Prod.snd)
  let paths ← m.paths.noteAll ((nodes.map Prod.fst).zip values)
  return { m with
    paths := paths, shared := shared, acc := { cur with data := data } :: m.acc, label := .loop }

def begin (m : Parser G D S) : Parser G D S :=
  let (bufs, bufhead) := m.bufs.add none (.symbol g.amlCode)
  { m with
    bufs := bufs, c := start, acc := [], head := [⟨none, bufhead, none, .done, g.initial⟩], r := none
    label := .loop, allocated := m.allocated + 1 }

def step [DecidableEq G] (m : Parser G D S) : Option (Parser G D S) :=
  match m.label with
  | .loop => some (choose ignoreError stop (getbuf m))
  | .loop2 cur =>
    match cur.bufhead with
    | none => some { m with label := .err cur }
    | some p => do
        let (bufs, element, bufhead) ← m.bufs.pop p
        dispatch g { m with bufs := bufs } { cur with bufhead := bufhead, pathelement := element } element
  | .add cur [] => some { m with label := .err cur }
  | .add cur (tmp :: alternatives) => do
      return { ← addbufsub g m cur tmp with label := .add cur alternatives }
  | .ok cur => accept g m cur
  | .err cur => do return { ← free m cur with label := .loop }
  | .returned none => some { m with label := .finished }
  | .returned (some q) => do return { ← free m q with label := .finished }
  | .finished => if m.passes = 0 then some m else some (begin g start { m with passes := m.passes - 1 })
  | .error _ => some m

def initially (shared : S) (passes : ℕ) : Parser G D S :=
  ⟨.empty, .empty, .empty, [], [], none, start, shared, .finished, passes, 0, 0⟩

def run [DecidableEq G] : ℕ → Parser G D S → Option (Parser G D S)
  | 0, m => some m
  | n + 1, m => do run n (← step g ignoreError start stop m)

def current : Label G D → List (Alternative G D)
  | .loop2 cur => [cur]
  | .add cur _ => [cur]
  | .ok cur => [cur]
  | .err cur => [cur]
  | .returned q => q.toList
  | .error q => q.toList
  | _ => []

def alive (m : Parser G D S) : List (Alternative G D) := current m.label ++ (m.head ++ (m.acc ++ m.r.toList))

def isOver : Label G D → Bool
  | .returned _ => true
  | .finished => true
  | _ => false

structure Sound (m : Parser G D S) : Prop where
  paths : Counts m.paths (m.alive.map Alternative.pathhead)
  bufs : Counts m.bufs (m.alive.map Alternative.bufhead)
  limits : Counts m.limits (m.alive.map Alternative.limithead)
  owned : m.allocated = m.freed + m.alive.length
  done : isOver m.label = true → m.head = [] ∧ m.acc = [] ∧ m.r = none

variable {g ignoreError start stop} {m m' : Parser G D S} {cur : Alternative G D}

def others (m : Parser G D S) : List (Alternative G D) := m.head ++ (m.acc ++ m.r.toList)

theorem Sound.move (sound : Sound m) (alive : m.alive.Perm m'.alive) (paths : m'.paths = m.paths)
    (bufs : m'.bufs = m.bufs) (limits : m'.limits = m.limits) (owned : m'.allocated = m.allocated)
    (freed : m'.freed = m.freed) (done : isOver m'.label = true → m'.head = [] ∧ m'.acc = [] ∧ m'.r = none) :
    Sound m' where
  paths := paths ▸ sound.paths.perm (alive.map _)
  bufs := bufs ▸ sound.bufs.perm (alive.map _)
  limits := limits ▸ sound.limits.perm (alive.map _)
  owned := by rw [owned, freed, ← alive.length_eq]; exact sound.owned
  done := done

theorem sound_choose (sound : Sound m) (label : m.label = .loop) : Sound (choose ignoreError stop (getbuf m)) := by
  have getbuf' : Sound (getbuf m) ∧ (getbuf m).label = .loop ∧ ((getbuf m).head = [] → (getbuf m).acc = []) := by
    unfold getbuf
    split
    · rename_i empty
      refine ⟨sound.move ?_ rfl rfl rfl rfl rfl ?_, label, fun _ => rfl⟩
      · simp only [alive, label, current, empty, nil_append]
        exact List.Perm.refl _
      · intro ended
        simp only [label, isOver] at ended
        cases ended
    · rename_i first later full
      exact ⟨sound, label, fun empty => by rw [full] at empty; cases empty⟩
  generalize getbuf m = n at getbuf'
  obtain ⟨sound, label, none'⟩ := getbuf'
  unfold choose
  split
  · rename_i empty over'
    have acc := none' empty
    refine sound.move ?_ rfl rfl rfl rfl rfl (fun _ => ⟨empty, acc, over'⟩)
    have nobody : (current (if ignoreError then .returned none else .error none) : List (Alternative G D)) = [] := by
      cases ignoreError with
      | true => rfl
      | false => rfl
    simp only [alive, label, nobody, empty, acc, over']
    exact List.Perm.refl _
  · rename_i q empty result
    have acc := none' empty
    refine sound.move ?_ rfl rfl rfl rfl rfl (fun _ => ⟨empty, acc, rfl⟩)
    simp only [alive, label, current, empty, acc, result]
    exact List.Perm.refl _
  · rename_i cur head full none''
    split
    · refine sound.move ?_ rfl rfl rfl rfl rfl (fun ended => by rw [label] at ended; cases ended)
      simp only [alive, label, current, full, none'', nil_append, Option.toList_none, Option.toList_some,
        append_nil, ← append_assoc]
      exact (perm_append_singleton _ _).symm
    · refine sound.move ?_ rfl rfl rfl rfl rfl (fun ended => by cases ended)
      simp only [alive, label, current, full, none'', nil_append, cons_append]
      exact List.Perm.refl _
  · rename_i cur head q full result
    refine sound.move ?_ rfl rfl rfl rfl rfl (fun ended => by cases ended)
    simp only [alive, label, current, full, nil_append, cons_append]
    exact List.Perm.refl _

structure Held (m : Parser G D S) (cur : Alternative G D) : Prop where
  paths : Counts m.paths (cur.pathhead :: m.others.map Alternative.pathhead)
  bufs : Counts m.bufs (cur.bufhead :: m.others.map Alternative.bufhead)
  limits : Counts m.limits (cur.limithead :: m.others.map Alternative.limithead)
  owned : m.allocated = m.freed + (m.others.length + 1)

theorem Sound.held (sound : Sound m) (now : current m.label = [cur]) : Held m cur := by
  obtain ⟨paths, bufs, limits, owned, -⟩ := sound
  rw [alive, now] at paths bufs limits owned
  exact ⟨paths, bufs, limits, owned⟩

section

variable (held : Held m cur)
include held

theorem Held.sound (label : Label G D) (now : current label = [cur]) (busy : isOver label = false) :
    Sound { m with label := label } := by
  have alive' : alive { m with label := label } = cur :: m.others := by
    rw [alive, now]
    rfl
  exact ⟨alive' ▸ held.paths, alive' ▸ held.bufs, alive' ▸ held.limits, alive' ▸ held.owned,
    fun ended => by rw [busy] at ended; cases ended⟩

theorem Held.data (data : D) : Held m { cur with data := data } :=
  ⟨held.paths, held.bufs, held.limits, held.owned⟩

theorem Held.popLimit {l : ℕ} (top : cur.limithead = some l) :
    ∃ limits, ∃ n : Node ℕ, m.limits.pop l = some (limits, n.value, n.next) ∧
      Held { m with limits := limits } { cur with limithead := n.next } := by
  have counts := held.limits
  rw [top] at counts
  obtain ⟨limits, n, -, popped, counts'⟩ := counts.pop
  exact ⟨limits, n, popped, held.paths, held.bufs, counts', held.owned⟩

theorem dispatch_sound (element : Element G) : ∃ m', dispatch g m cur element = some m' ∧ Sound m' := by
  cases element with
  | done =>
    cases top : cur.pathhead with
    | none => exact ⟨{ m with label := .error (some cur) }, by rw [dispatch, top], held.sound _ rfl rfl⟩
    | some p =>
      have counts := held.paths
      rw [top] at counts
      obtain ⟨paths, n, -, popped, counts'⟩ := counts.pop
      have held' : Held { m with paths := paths } { cur with pathhead := n.next } :=
        ⟨counts', held.bufs, held.limits, held.owned⟩
      exact ⟨_, by simp only [dispatch, top, popped, bind_eq_bind, bind_some, Option.pure_def],
        held'.sound (.loop2 { cur with pathhead := n.next }) rfl rfl⟩
  | pkgLengthPush =>
    have held' : Held { m with limits := (m.limits.add cur.limithead (g.pkgend cur.data)).1 }
        { cur with limithead := (m.limits.add cur.limithead (g.pkgend cur.data)).2 } :=
      ⟨held.paths, held.bufs, held.limits.add _ _, held.owned⟩
    exact ⟨_, rfl, held'.sound (.loop2 _) rfl rfl⟩
  | pkgIgnore =>
    cases top : cur.limithead with
    | none => exact ⟨{ m with label := .error (some cur) }, by rw [dispatch, top], held.sound _ rfl rfl⟩
    | some l =>
      obtain ⟨limits, n, popped, held'⟩ := held.popLimit top
      exact ⟨_, by simp only [dispatch, top, popped, bind_eq_bind, bind_some, Option.pure_def],
        held'.sound (.loop2 _) rfl rfl⟩
  | pkgEnd =>
    cases top : cur.limithead with
    | none => exact ⟨{ m with label := .error (some cur) }, by rw [dispatch, top], held.sound _ rfl rfl⟩
    | some l =>
      obtain ⟨limits, n, popped, held'⟩ := held.popLimit top
      by_cases ended : n.value = m.c
      · exact ⟨_, by simp only [dispatch, top, popped, ended, if_true, bind_eq_bind, bind_some,
          Option.pure_def], held'.sound (.loop2 _) rfl rfl⟩
      · exact ⟨_, by simp only [dispatch, top, popped, ended, if_false, bind_eq_bind, bind_some,
          Option.pure_def], held'.sound (.err _) rfl rfl⟩
  | symbol e =>
    obtain ⟨⟨action, data⟩, result⟩ : ∃ x, g.action e m.c m.shared cur.data = x := ⟨_, rfl⟩
    have held' := held.data data
    cases action with
    | add alternatives => exact ⟨_, by simp only [dispatch, result], held'.sound (.add _ alternatives) rfl rfl⟩
    | ok => exact ⟨_, by simp only [dispatch, result], held'.sound (.ok _) rfl rfl⟩
    | err => exact ⟨_, by simp only [dispatch, result], held'.sound (.err _) rfl rfl⟩
    | loop2 => exact ⟨_, by simp only [dispatch, result], held'.sound (.loop2 _) rfl rfl⟩
    | error => exact ⟨_, by simp only [dispatch, result], held'.sound (.error (some _)) rfl rfl⟩

end

variable {heads : List (Option ℕ)}

theorem extend {α : Type} {h : Heap α} {head : Option ℕ} (counts : Counts h (head :: heads)) (f : Bool) (value : α) :
    Counts (if f then h.add head value else (h, head)).1 ((if f then h.add head value else (h, head)).2 :: heads) := by
  cases f with
  | true => exact counts.add head value
  | false => exact counts

theorem addAll_counts {bufs : Heap (Element G)} {head : Option ℕ} (counts : Counts bufs (head :: heads))
    (tmp : List (Element G)) : Counts (addAll bufs head tmp).1 ((addAll bufs head tmp).2 :: heads) := by
  induction tmp with
  | nil => exact counts
  | cons element tmp ih => exact ih.add _ _

theorem copied {α : Type} {h : Heap α} {head : Option ℕ} (counts : Counts h (head :: heads)) :
    ∃ h', h.share head = some h' ∧ Counts h' (head :: head :: heads) :=
  counts.share fun _ same => counts.head (same ▸ mem_cons_self)

theorem addbufsub_held [DecidableEq G] (held : Held m cur) (tmp : List (Element G)) :
    ∃ m', addbufsub g m cur tmp = some m' ∧ Held m' cur := by
  obtain ⟨paths, sharedPath, countsPath⟩ := copied held.paths
  obtain ⟨bufs, sharedBuf, countsBuf⟩ := copied held.bufs
  obtain ⟨limits, sharedLimit, countsLimit⟩ := copied held.limits
  obtain ⟨top, read⟩ := countsPath.peek mem_cons_self
  let f := top.all fun n => n.value.element ≠ cur.pathelement
  let path := if f then paths.add cur.pathhead ⟨cur.pathelement, top.elim 0 fun n => n.value.namelen, 0⟩
    else (paths, cur.pathhead)
  let buf := if f then bufs.add cur.bufhead .done else (bufs, cur.bufhead)
  refine ⟨{ m with
    paths := path.1, bufs := (addAll buf.1 buf.2 tmp).1, limits := limits, allocated := m.allocated + 1
    head := ⟨path.2, (addAll buf.1 buf.2 tmp).2, cur.limithead, .done, g.copy cur.data⟩ :: m.head }, ?_, ?_, ?_, ?_, ?_⟩
  · simp only [addbufsub, sharedPath, sharedBuf, sharedLimit, read, bind_eq_bind, bind_some,
      Option.pure_def]
    rfl
  · exact (extend countsPath f _).perm (List.Perm.swap _ _ _)
  · exact (addAll_counts (extend countsBuf f .done) tmp).perm (List.Perm.swap _ _ _)
  · exact countsLimit
  · have owned := held.owned
    change m.allocated + 1 = m.freed + (m.others.length + 1 + 1)
    omega

theorem free_others (held : Held m cur) : ∃ m', free m cur = some m' ∧ m'.head = m.head ∧ m'.acc = m.acc ∧ m'.r = m.r ∧
    Counts m'.paths (m.others.map Alternative.pathhead) ∧ Counts m'.bufs (m.others.map Alternative.bufhead) ∧
    Counts m'.limits (m.others.map Alternative.limithead) ∧ m'.allocated = m'.freed + m.others.length := by
  have bound : ∀ {α : Type} {h : Heap α} {head : Option ℕ} {heads : List (Option ℕ)}, Counts h (head :: heads) →
      ∀ p, head = some p → p < h.fresh := by
    intro α h head heads counts p same
    obtain ⟨n, node⟩ := counts.head (p := p) (same ▸ mem_cons_self)
    exact (counts.live p n node).2.1
  obtain ⟨paths, freedPath, countsPath⟩ := held.paths.release (bound held.paths)
  obtain ⟨bufs, freedBuf, countsBuf⟩ := held.bufs.release (bound held.bufs)
  obtain ⟨limits, freedLimit, countsLimit⟩ := held.limits.release (bound held.limits)
  refine ⟨{ m with paths := paths, bufs := bufs, limits := limits, freed := m.freed + 1 }, ?_, rfl, rfl, rfl,
    countsPath, countsBuf, countsLimit, ?_⟩
  · simp only [free, freedPath, freedBuf, freedLimit, bind_eq_bind, bind_some, Option.pure_def]
  · have owned := held.owned
    dsimp only
    omega

theorem known_some [DecidableEq G] (held : Held m cur) : ∀ acc : List (Alternative G D), (∀ q ∈ acc, q ∈ m.others) →
    ∃ b, known g m cur acc = some b
  | [], _ => ⟨false, rfl⟩
  | q :: later, members => by
      obtain ⟨b, rest⟩ := known_some held later fun q member => members q (mem_cons_of_mem _ member)
      have inside := members q mem_cons_self
      have left : ∀ {α : Type} {h : Heap α} {heads : List (Option ℕ)}, Counts h heads → ∀ {head}, head ∈ heads →
          ∀ i, head = some i → i + 1 < h.fresh + 1 ∧ ∃ n, h.nodes i = some n := by
        intro α h heads counts head member i same
        obtain ⟨n, node⟩ := counts.head (same ▸ member)
        exact ⟨Nat.succ_lt_succ (counts.live i n node).2.1, n, node⟩
      obtain ⟨bufs, sameBufs⟩ := held.bufs.same (Nat.succ_pos m.bufs.fresh) (left held.bufs mem_cons_self)
        (fun i same => (left held.bufs (mem_cons_of_mem _ (mem_map_of_mem inside)) i same).2)
      obtain ⟨limits, sameLimits⟩ := held.limits.same (Nat.succ_pos m.limits.fresh)
        (left held.limits mem_cons_self)
        (fun i same => (left held.limits (mem_cons_of_mem _ (mem_map_of_mem inside)) i same).2)
      simp only [known, sameBufs, bind_eq_bind, bind_some, Option.pure_def]
      cases bufs with
      | false => exact ⟨b, rest⟩
      | true =>
        simp only [if_true, sameLimits, bind_some]
        split
        · exact ⟨true, rfl⟩
        · exact ⟨b, rest⟩

theorem accept_sound [DecidableEq G] (held : Held m cur) : ∃ m', accept g m cur = some m' ∧ Sound m' := by
  obtain ⟨top, poll⟩ := held.limits.peek mem_cons_self
  obtain ⟨b, compared⟩ := known_some (g := g) held m.acc (fun q member => mem_append_right _ (mem_append_left _ member))
  have inside : ∀ p, cur.pathhead = some p → p < m.paths.fresh ∧ ∃ n, m.paths.nodes p = some n := by
    intro p same
    obtain ⟨n, node⟩ := held.paths.head (p := p) (same ▸ mem_cons_self)
    exact ⟨(held.paths.live p n node).2.1, n, node⟩
  obtain ⟨nodes, read, live⟩ := held.paths.toList inside
  obtain ⟨⟨shared, data, values⟩, parsed⟩ : ∃ x, g.parseok m.c m.shared cur.data (nodes.map Prod.snd) = x := ⟨_, rfl⟩
  have places : ∀ p ∈ ((nodes.map Prod.fst).zip values).map Prod.fst, ∃ n, m.paths.nodes p = some n := by
    intro p member
    obtain ⟨⟨p, value⟩, inZip, rfl⟩ := mem_map.mp member
    exact live p (of_mem_zip inZip).1
  obtain ⟨paths, noted, counts⟩ := held.paths.noteAll places
  simp only [accept, poll, compared, read, parsed, noted, bind_eq_bind, bind_some, Option.pure_def]
  split
  · exact ⟨_, rfl, held.sound (.err cur) rfl rfl⟩
  · split
    · exact ⟨_, rfl, held.sound (.err cur) rfl rfl⟩
    · refine ⟨_, rfl, ?_⟩
      have place : ({ cur with data := data } :: m.others).Perm
          (m.head ++ (({ cur with data := data } :: m.acc) ++ m.r.toList)) := perm_middle.symm
      have held' := held.data data
      refine ⟨counts.perm (place.map Alternative.pathhead), held'.bufs.perm (place.map Alternative.bufhead),
        held'.limits.perm (place.map Alternative.limithead), ?_, ?_⟩
      · have length := place.length_eq
        have owned := held.owned
        rw [length_cons] at length
        change m.allocated = m.freed + (m.head ++ (({ cur with data := data } :: m.acc) ++ m.r.toList)).length
        omega
      · intro ended
        cases ended

theorem begin_sound (sound : Sound m) (label : m.label = .finished) (n : ℕ) :
    Sound (begin g start { m with passes := n }) := by
  obtain ⟨paths, bufs, limits, owned, done⟩ := sound
  obtain ⟨head, acc, r⟩ := done (by rw [label]; rfl)
  have nobody : m.alive = [] := by
    rw [alive, label, head, acc, r]
    rfl
  rw [nobody] at paths bufs limits owned
  have null : ∀ {α : Type} {h : Heap α}, Counts h [] → Counts h [none] := fun counts => counts.congr fun _ => rfl
  exact ⟨null paths, (null bufs).add _ _, null limits, congrArg (· + 1) owned, fun ended => by cases ended⟩

theorem step_sound [DecidableEq G] (sound : Sound m) : ∃ m', step g ignoreError start stop m = some m' ∧ Sound m' := by
  unfold step
  split
  · rename_i label
    exact ⟨_, rfl, sound_choose sound label⟩
  · rename_i cur label
    have held : Held m cur := sound.held (by rw [label]; rfl)
    cases buf : cur.bufhead with
    | none => exact ⟨_, rfl, held.sound (.err cur) rfl rfl⟩
    | some p =>
      have counts := held.bufs
      rw [buf] at counts
      obtain ⟨bufs, n, -, popped, counts'⟩ := counts.pop
      simp only [popped, bind_eq_bind, bind_some]
      have held' : Held { m with bufs := bufs } { cur with bufhead := n.next, pathelement := n.value } :=
        ⟨held.paths, counts', held.limits, held.owned⟩
      exact dispatch_sound held' n.value
  · rename_i cur label
    have held : Held m cur := sound.held (by rw [label]; rfl)
    exact ⟨_, rfl, held.sound (.err cur) rfl rfl⟩
  · rename_i cur tmp alternatives label
    have held : Held m cur := sound.held (by rw [label]; rfl)
    obtain ⟨m', added, held'⟩ := addbufsub_held (g := g) held tmp
    exact ⟨_, by rw [added]; rfl, held'.sound (.add cur alternatives) rfl rfl⟩
  · rename_i cur label
    exact accept_sound (sound.held (by rw [label]; rfl))
  · rename_i cur label
    have held : Held m cur := sound.held (by rw [label]; rfl)
    obtain ⟨m', freed', head, acc, r, paths, bufs, limits, owned⟩ := free_others held
    have left : alive { m' with label := .loop } = m.others := by
      change m'.head ++ (m'.acc ++ m'.r.toList) = _
      rw [head, acc, r]
      rfl
    exact ⟨_, by rw [freed']; rfl, left ▸ paths, left ▸ bufs, left ▸ limits, left ▸ owned, fun ended => by cases ended⟩
  · rename_i label
    refine ⟨_, rfl, sound.move ?_ rfl rfl rfl rfl rfl (fun _ => sound.done (by rw [label]; rfl))⟩
    simp only [alive, label, current, Option.toList_none]
    exact List.Perm.refl _
  · rename_i q label
    have held : Held m q := sound.held (by rw [label]; rfl)
    obtain ⟨m', freed', head, acc, r, paths, bufs, limits, owned⟩ := free_others held
    have left : alive { m' with label := .finished } = m.others := by
      change m'.head ++ (m'.acc ++ m'.r.toList) = _
      rw [head, acc, r]
      rfl
    refine ⟨_, by rw [freed']; rfl, left ▸ paths, left ▸ bufs, left ▸ limits, left ▸ owned, fun _ => ?_⟩
    obtain ⟨head', acc', r'⟩ := sound.done (by rw [label]; rfl)
    exact ⟨head.trans head', acc.trans acc', r.trans r'⟩
  · rename_i label
    split
    · exact ⟨m, rfl, sound⟩
    · exact ⟨_, rfl, begin_sound sound label _⟩
  · exact ⟨m, rfl, sound⟩

theorem initially_sound (shared : S) (passes : ℕ) : Sound (initially (G := G) (D := D) start shared passes) :=
  ⟨.empty, .empty, .empty, rfl, fun _ => ⟨rfl, rfl, rfl⟩⟩

theorem run_sound [DecidableEq G] (n : ℕ) (sound : Sound m) :
    ∃ m', run g ignoreError start stop n m = some m' ∧ Sound m' := by
  induction n generalizing m with
  | zero => exact ⟨m, rfl, sound⟩
  | succ n ih =>
    obtain ⟨next, stepped, sound'⟩ : ∃ m', step g ignoreError start stop m = some m' ∧ Sound m' := step_sound sound
    obtain ⟨m', ran, sound''⟩ := ih sound'
    exact ⟨m', by rw [run, stepped]; exact ran, sound''⟩

/-- Every point of every parse: no freed node has been used, each node counts the heads and nodes that point to it, and
behind the end of a pass nothing is left. -/
theorem stacks_counted [DecidableEq G] (g : Grammar G D S) (ignoreError : Bool) (start stop : ℕ) (shared : S)
    (passes n : ℕ) : ∃ m, run g ignoreError start stop n (initially start shared passes) = some m ∧
      (∀ p node, m.paths.nodes p = some node →
        node.ref = (m.alive.map Alternative.pathhead).count (some p) + m.paths.pointed p) ∧
      (∀ p node, m.bufs.nodes p = some node →
        node.ref = (m.alive.map Alternative.bufhead).count (some p) + m.bufs.pointed p) ∧
      (∀ p node, m.limits.nodes p = some node →
        node.ref = (m.alive.map Alternative.limithead).count (some p) + m.limits.pointed p) ∧
      m.allocated = m.freed + m.alive.length ∧
      (m.label = .finished → (∀ p, m.paths.nodes p = none ∧ m.bufs.nodes p = none ∧ m.limits.nodes p = none) ∧
        m.allocated = m.freed) := by
  obtain ⟨m, ran, sound⟩ := run_sound (g := g) n (initially_sound shared passes)
  have counted : ∀ {α : Type} {h : Heap α} {heads : List (Option ℕ)}, Counts h heads → ∀ p node,
      h.nodes p = some node → node.ref = heads.count (some p) + h.pointed p := by
    intro α h heads counts p node here
    rw [← counts.count p, Heap.ref, here, Option.elim_some]
  refine ⟨m, ran, counted sound.paths, counted sound.bufs, counted sound.limits, sound.owned, ?_⟩
  intro finished
  obtain ⟨head, acc, r⟩ := sound.done (by rw [finished]; rfl)
  have nobody : m.alive = [] := by
    rw [alive, finished, head, acc, r]
    rfl
  obtain ⟨paths, bufs, limits, owned, -⟩ := sound
  rw [nobody] at paths bufs limits owned
  exact ⟨fun p => ⟨paths.all_freed p, bufs.all_freed p, limits.all_freed p⟩, owned⟩

example : (run ⟨(), (), id, fun _ _ _ data => (.ok, data), fun _ => 0, fun _ _ => false,
      fun _ s data nodes => (s, data, nodes)⟩ false 0 1 8 (initially 0 () 1)).map (fun m => (isOver m.label, m.passes, m.freed)) = some (true, 0, 1) := by decide

end Parser

end DisasVisor.Core.Aml
