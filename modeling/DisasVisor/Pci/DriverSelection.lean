import Mathlib.Data.List.Induction

/-!
The choice of a driver for a PCI device in `drivers/pci_match.c`. A string is the list of the tokens that
`get_token` splits off it, a pointer into it the list that is left; `none` is a panic.
-/

namespace DisasVisor.Pci.Match

open Function List
open Option (bind_eq_bind bind_some getD_some map_some map_none bind_none)

/-- The text of a token, which is missing where a quotation is not closed, and the character behind it. -/
structure Token where
  text : Option String
  stop : Char

structure Device where
  initialBusNo : ℕ
  deviceNo : ℕ
  funcNo : ℕ
  classCode : ℕ
  vendorId : ℕ
  deviceId : ℕ
  subVendorId : ℕ
  subDeviceId : ℕ
  revisionId : ℕ
  programmingInterface : ℕ
  headerType : ℕ
  deriving DecidableEq

structure Driver where
  name : String
  device : List Token
  driverOptions : Option (List Token)

def hex (width n : ℕ) : String :=
  let digits := Nat.toDigits 16 n
  String.ofList (List.replicate (width - digits.length) '0' ++ digits)

variable (matchToken : String → String → Bool) (drivers : List Driver)

def getValue (tname : String) (dev : Device) : Option String :=
  if matchToken "slot" tname then
    some (hex 2 dev.initialBusNo ++ ":" ++ hex 2 dev.deviceNo ++ "." ++ toString dev.funcNo)
  else if matchToken "class" tname then some (hex 4 (dev.classCode >>> 8))
  else if matchToken "id" tname then some (hex 4 dev.vendorId ++ ":" ++ hex 4 dev.deviceId)
  else if matchToken "subsystem" tname then some (hex 4 dev.subVendorId ++ ":" ++ hex 4 dev.subDeviceId)
  else if matchToken "revision" tname || matchToken "rev" tname then some (hex 2 dev.revisionId)
  else if matchToken "programming_interface" tname || matchToken "if" tname then
    some (hex 2 dev.programmingInterface)
  else if matchToken "class_code" tname then some (hex 6 dev.classCode)
  else if matchToken "header_type" tname then some (hex 2 dev.headerType)
  else none

def assigned (name value : Token) : Option (String × String) :=
  match name.text, value.text with
  | some tname, some tvalue =>
    if name.stop = '=' ∧ (value.stop = ',' ∨ value.stop = '\x00') then some (tname, tvalue) else none
  | _, _ => none

def pciMatch (dev : Device) : List Token → Option Bool
  | [] => some true
  | name :: tokens =>
    if name.text = some "" then some true
    else
      match tokens with
      | [] => none
      | value :: rest => do
          let (tname, tvalue) ← assigned name value
          let buf ← getValue matchToken tname dev
          if !matchToken buf tvalue then return false
          pciMatch dev rest

def pciFindDriverByToken (name : String) : Option Driver :=
  drivers.find? fun driver => driver.name ≠ "" && driver.name = name

def optionCount : List Token → Option ℕ
  | [] => some 0
  | t :: rest =>
    if t.text = some "" then some 0
    else if t.text = none ∨ t.stop ≠ ',' ∧ t.stop ≠ '\x00' then none
    else (optionCount rest).map (· + 1)

def optionIndex (name : String) : List Token → Option ℕ
  | [] => none
  | t :: rest =>
    if t.text = some "" ∨ t.text = none ∨ t.stop ≠ ',' ∧ t.stop ≠ '\x00' then none
    else if t.text = some name then some 0
    else (optionIndex name rest).map (· + 1)

abbrev Options := Option (List (Option String))

def allocDriverOptions (driver : Driver) (options : Options) : Option Options :=
  match driver.driverOptions with
  | none => some options
  | some p => (optionCount p).map fun n => some (List.replicate n none)

def saveDriverOptions (save : Bool) (driver : Driver) (name value : String) (options : Options) : Option Options :=
  match optionIndex name (driver.driverOptions.getD []) with
  | none => none
  | some i => some (if save then options.map (fun table => table.set i (some value)) else options)

structure Selection where
  selected : Bool
  mismatch : Bool
  number : ℕ → ℕ

def pciMatchDeviceSelection (dev : Device) : List Token → Selection → Option (Selection × String × List Token)
  | name :: value :: rest, s => do
      if name.text = some "" then none
      let (tname, tvalue) ← assigned name value
      if matchToken "driver" tname then return (s, tvalue, rest)
      if s.selected && matchToken "number" tname then
        if s.mismatch then pciMatchDeviceSelection dev rest s
        else
          let np := s.number rest.length
          pciMatchDeviceSelection dev rest { s with
            number := update s.number rest.length (np + 1)
            mismatch := !matchToken (toString np) tvalue }
      else if matchToken "device" tname then
        let driver ← pciFindDriverByToken drivers tvalue
        let same ← pciMatch matchToken dev driver.device
        pciMatchDeviceSelection dev rest { s with selected := true, mismatch := s.mismatch || !same }
      else
        let buf ← getValue matchToken tname dev
        pciMatchDeviceSelection dev rest { s with
          selected := true, mismatch := s.mismatch || !matchToken buf tvalue }
  | _, _ => none

structure Choice where
  driver : Option Driver
  selected : Bool
  options : Options

def optionLoop (driver : Option Driver) (save : Bool) : List Token → Options → Option (Options × List Token)
  | [], options => some (options, [])
  | name :: tokens, options =>
    if name.text = some "" then some (options, name :: tokens)
    else do
      let tname ← name.text
      if matchToken "and" tname && name.stop = ',' then return (options, tokens)
      match tokens with
      | [] => none
      | value :: rest =>
        let (tname, tvalue) ← assigned name value
        let driver' ← driver
        let options ← saveDriverOptions save driver' tname tvalue options
        optionLoop driver save rest options

def namedDriver (tvalue : String) : Option (Option Driver) :=
  if matchToken "none" tvalue then some none else (pciFindDriverByToken drivers tvalue).map some

def asked (dev : Device) (selected : Bool) : Option Driver → Option Bool
  | none => some selected
  | some driver => if selected then some true else pciMatch matchToken dev driver.device

def opened (hit : Bool) (options : Options) : Option Driver → Option Options
  | none => some options
  | some driver => if hit then allocDriverOptions driver options else some options

def pciMatchDriverSelection (dev : Device) (tvalue : String) (tokens : List Token) (s : Selection) (c : Choice) :
    Option (Choice × List Token) := do
  let driver ← namedDriver matchToken drivers tvalue
  let own ← asked matchToken dev s.selected driver
  let hit := !s.mismatch && own && !c.selected
  let options ← opened hit c.options driver
  let (options, rest) ← optionLoop matchToken driver hit tokens options
  return (⟨if hit then driver else c.driver, c.selected || hit, options⟩, rest)

def segmentLoop (dev : Device) : ℕ → List Token → (ℕ → ℕ) → Choice → Option (Choice × (ℕ → ℕ))
  | 0, _, _, _ => none
  | fuel + 1, tokens, number, c =>
    match tokens with
    | [] => some (c, number)
    | name :: _ =>
      if name.text = some "" then some (c, number)
      else do
        let (s, tvalue, rest) ← pciMatchDeviceSelection matchToken drivers dev tokens ⟨false, false, number⟩
        let (c, rest) ← pciMatchDriverSelection matchToken drivers dev tvalue rest s c
        segmentLoop dev fuel rest s.number c

def pciMatchFindDriverSub (dev : Device) (p : List Token) (number : ℕ → ℕ) : Option (Choice × (ℕ → ℕ)) :=
  segmentLoop matchToken drivers dev (p.length + 1) p number ⟨none, false, none⟩

/-- `pci_match_find_driver`, over `config.vmm.driver.pci` and the strings of `compat_list`, each with its numbers;
`device->driver_options` is left where a driver is chosen. -/
def pciMatchFindDriver (dev : Device) : List (List Token × (ℕ → ℕ)) →
    Option (Option (Driver × Options) × List (List Token × (ℕ → ℕ)))
  | [] => some (none, [])
  | (p, number) :: later => do
      let (c, number) ← pciMatchFindDriverSub matchToken drivers dev p number
      match c.driver with
      | some driver => return (some (driver, c.options), (p, number) :: later)
      | none =>
        let (choice, later) ← pciMatchFindDriver dev later
        return (choice, (p, number) :: later)

def present : List Device → List (List Token × (ℕ → ℕ)) → Option (List (Option (Driver × Options)))
  | [], _ => some []
  | dev :: devs, strings => do
      let (choice, strings) ← pciMatchFindDriver matchToken drivers dev strings
      return choice :: (← present devs strings)

/-! What a string says -/

/-- A segment: the selectors, the text behind `driver=`, and the options. -/
structure Segment where
  selectors : List (String × String)
  driver : String
  options : List (String × String)

def driverOf (seg : Segment) : Option Driver :=
  if matchToken "none" seg.driver then none else pciFindDriverByToken drivers seg.driver

def ownPattern (dev : Device) (driver : Driver) : Bool := (pciMatch matchToken dev driver.device).getD false

def describes (dev : Device) (sel : String × String) : Bool :=
  if matchToken "device" sel.1 then ((pciFindDriverByToken drivers sel.2).map (ownPattern matchToken dev)).getD false
  else ((getValue matchToken sel.1 dev).map fun buf => matchToken buf sel.2).getD false

/-- How many of the devices, the latest one first, satisfy `p` after those before them. -/
def rank (p : List Device → Device → Bool) : List Device → ℕ
  | [] => 0
  | dev :: earlier => rank p earlier + if p earlier dev then 1 else 0

/-- The selectors, the last one first, hold of a device that is presented after `earlier`; `number` is the rank among
the devices that the selectors before it hold of. -/
def passes : List (String × String) → List Device → Device → Bool
  | [], _, _ => true
  | sel :: before, earlier, dev => passes before earlier dev &&
      if !before.isEmpty && matchToken "number" sel.1 then matchToken (toString (rank (passes before) earlier)) sel.2
      else describes matchToken drivers dev sel

def hits (earlier : List Device) (dev : Device) (seg : Segment) : Bool :=
  if seg.selectors.isEmpty then ((driverOf matchToken drivers seg).map (ownPattern matchToken dev)).getD false
  else passes matchToken drivers seg.selectors.reverse earlier dev

def optionTable (driver : Driver) (options : List (String × String)) : Options :=
  driver.driverOptions.bind fun p => (optionCount p).map fun n => (List.range n).map fun i =>
    (options.reverse.find? fun o => optionIndex o.1 p = some i).map Prod.snd

def chosen (segs : List Segment) (earlier : List Device) (dev : Device) : Option (Driver × Options) :=
  (segs.find? (hits matchToken drivers earlier dev)).bind fun seg =>
    (driverOf matchToken drivers seg).map fun driver => (driver, optionTable driver seg.options)

def keep (p : List Device → Device → Bool) : List Device → List Device
  | [] => []
  | dev :: earlier => if p earlier dev then dev :: keep p earlier else keep p earlier

def selected : List (List Segment) → List Device → Device → Option (Driver × Options)
  | [], _, _ => none
  | segs :: later, earlier, dev =>
    (chosen matchToken drivers segs earlier dev).or
      (selected later (keep (fun es d => (chosen matchToken drivers segs es d).isNone) earlier) dev)

def selections (strings : List (List Segment)) : List Device → List Device → List (Option (Driver × Options))
  | _, [] => []
  | earlier, dev :: devs => selected matchToken drivers strings earlier dev :: selections strings (dev :: earlier) devs

/-! Well-formed strings -/

def atEnd : List Token → Bool
  | [] => true
  | t :: _ => t.text = some ""

inductive Items (rest : List Token) : List (String × String) → List Token → Prop
  | nil : Items rest [] rest
  | cons {name value : String} {stop : Char} {items : List (String × String)} {tokens : List Token} :
      name ≠ "" → stop = ',' ∨ stop = '\x00' → Items rest items tokens →
        Items rest ((name, value) :: items) (⟨some name, '='⟩ :: ⟨some value, stop⟩ :: tokens)

def Spelled (seg : Segment) (tokens rest : List Token) : Prop :=
  ∃ word, matchToken "driver" word = true ∧ Items rest (seg.selectors ++ (word, seg.driver) :: seg.options) tokens

inductive Written : List Segment → List Token → Prop
  | nil {tokens : List Token} : atEnd tokens = true → Written [] tokens
  | last {seg : Segment} {tokens rest : List Token} :
      Spelled matchToken seg tokens rest → atEnd rest = true → Written [seg] tokens
  | cons {seg : Segment} {word : String} {segs : List Segment} {tokens rest : List Token} :
      Spelled matchToken seg tokens (⟨some word, ','⟩ :: rest) → word ≠ "" → matchToken "and" word = true →
        Written segs rest → Written (seg :: segs) tokens

/-- Selectors behind `before` others: a number is not the first. -/
def Valid : ℕ → List (String × String) → Prop
  | _, [] => True
  | before, sel :: sels => matchToken "driver" sel.1 = false ∧
      (before ≠ 0 ∧ matchToken "number" sel.1 = true ∨
        matchToken "device" sel.1 = true ∧ (pciFindDriverByToken drivers sel.2).isSome ∨
        matchToken "device" sel.1 = false ∧ ∀ dev, (getValue matchToken sel.1 dev).isSome) ∧
      Valid (before + 1) sels

structure WellFormed (seg : Segment) : Prop where
  selectors : Valid matchToken drivers 0 seg.selectors
  driver : matchToken "none" seg.driver = true ∧ seg.options = [] ∨
    matchToken "none" seg.driver = false ∧ ∃ driver, pciFindDriverByToken drivers seg.driver = some driver ∧
      ∀ o ∈ seg.options, (optionIndex o.1 (driver.driverOptions.getD [])).isSome

structure Readable (driver : Driver) : Prop where
  device : ∀ dev, (pciMatch matchToken dev driver.device).isSome
  options : ∀ p, driver.driverOptions = some p → (optionCount p).isSome

/-! The selectors of a segment -/

variable {matchToken drivers} {dev : Device} {earlier : List Device}

def Counted (matchToken : String → String → Bool) (drivers : List Driver) (number : ℕ → ℕ) (earlier : List Device) :
    List (String × String) → List (String × String) → ℕ → Prop
  | _, [], _ => True
  | before, sel :: sels, left =>
    (before ≠ [] → matchToken "number" sel.1 = true →
      number (left - 2) = rank (passes matchToken drivers before) earlier) ∧
    Counted matchToken drivers number earlier (sel :: before) sels (left - 2)

theorem Counted.congr {number other : ℕ → ℕ} : ∀ {before sels : List (String × String)} {left : ℕ},
    2 * sels.length ≤ left → (∀ at', left < at' + 2 * sels.length + 1 → at' < left → other at' = number at') →
    Counted matchToken drivers number earlier before sels left →
      Counted matchToken drivers other earlier before sels left
  | _, [], _, _, _, _ => trivial
  | before, sel :: sels, left, fits, same, counted => by
      rw [length_cons] at fits
      rw [length_cons] at same
      refine ⟨?_, counted.2.congr (by omega) (fun at' _ _ => same at' (by omega) (by omega))⟩
      intro some' number'
      rw [same (left - 2) (by omega) (by omega)]
      exact counted.1 some' number'

variable {tokens rest tail : List Token} {value : String} {save : Bool} {seg : Segment} {c : Choice}
  {segss : List (List Segment)}

theorem Items.length {items : List (String × String)} (read : Items rest items tokens) :
    tokens.length = 2 * items.length + rest.length := by
  induction read with
  | nil => simp only [length_nil, Nat.mul_zero, Nat.zero_add]
  | cons _ _ _ ih =>
    simp only [length_cons, ih]
    omega

theorem assigned_item {name : String} {stop : Char} (ends : stop = ',' ∨ stop = '\x00') :
    assigned ⟨some name, '='⟩ ⟨some value, stop⟩ = some (name, value) := if_pos ⟨rfl, ends⟩

theorem selection_step {name : String} {stop : Char} (some' : name ≠ "") (ends : stop = ',' ∨ stop = '\x00')
    {before : List (String × String)} {s : Selection} (readable : ∀ driver ∈ drivers, Readable matchToken driver)
    (other : matchToken "driver" name = false) (valid : before.length ≠ 0 ∧ matchToken "number" name = true ∨
        matchToken "device" name = true ∧ (pciFindDriverByToken drivers value).isSome ∨
        matchToken "device" name = false ∧ ∀ dev, (getValue matchToken name dev).isSome)
    (selected : s.selected = !before.isEmpty) (mismatch : s.mismatch = !passes matchToken drivers before earlier dev)
    (counted : before ≠ [] → matchToken "number" name = true →
      s.number rest.length = rank (passes matchToken drivers before) earlier) :
    ∃ number, pciMatchDeviceSelection matchToken drivers dev (⟨some name, '='⟩ :: ⟨some value, stop⟩ :: rest) s =
        pciMatchDeviceSelection matchToken drivers dev rest
          ⟨true, !passes matchToken drivers ((name, value) :: before) earlier dev, number⟩ ∧
      (before ≠ [] → matchToken "number" name = true →
        number rest.length = rank (passes matchToken drivers before) (dev :: earlier)) ∧
      ∀ at', at' ≠ rest.length → number at' = s.number at' := by
  have text : ¬(some name : Option String) = some "" := fun same => some' (Option.some.inj same)
  obtain ⟨given, failed, number⟩ := s
  simp only at selected mismatch counted
  subst given failed
  rw [pciMatchDeviceSelection, assigned_item ends]
  simp only [if_neg text, Option.pure_def, bind_eq_bind, bind_some, other, passes]
  by_cases numbered : (!before.isEmpty && matchToken "number" name) = true
  · obtain ⟨behind, number'⟩ := Bool.and_eq_true_iff.mp numbered
    have some'' : before ≠ [] := by
      rintro rfl
      cases behind
    have count := counted some'' number'
    rw [if_pos numbered, if_pos numbered]
    cases here : passes matchToken drivers before earlier dev with
    | false =>
      refine ⟨number, by simp [behind], ?_, fun _ _ => rfl⟩
      intro _ _
      rw [count, rank, here]
      rfl
    | true =>
      refine ⟨update number rest.length (number rest.length + 1), ?_, ?_, ?_⟩
      · simp [behind, count]
      · intro _ _
        rw [update_self, count, rank, here]
        rfl
      · intro at' different
        exact update_of_ne different _ _
  · rw [if_neg numbered, if_neg numbered]
    have none' : ∀ {p : Prop}, before ≠ [] → matchToken "number" name = true → p := by
      intro p some'' number'
      exact absurd (by simp [some'', number']) numbered
    refine ⟨number, ?_, none', fun _ _ => rfl⟩
    by_cases device : matchToken "device" name = true
    · have known : (pciFindDriverByToken drivers value).isSome := by
        rcases valid with ⟨behind, number'⟩ | ⟨-, known⟩ | ⟨other', -⟩
        · exact none' (fun empty => behind (by rw [empty]; rfl)) number'
        · exact known
        · exact absurd device (Bool.not_eq_true _ ▸ other')
      obtain ⟨driver, found⟩ := Option.isSome_iff_exists.mp known
      obtain ⟨same, own⟩ := Option.isSome_iff_exists.mp ((readable driver (mem_of_find?_eq_some found)).device dev)
      simp [device, found, own, describes, ownPattern]
    · have field : (getValue matchToken name dev).isSome := by
        rcases valid with ⟨behind, number'⟩ | ⟨device', -⟩ | ⟨-, known⟩
        · exact none' (fun empty => behind (by rw [empty]; rfl)) number'
        · exact absurd device' device
        · exact known dev
      obtain ⟨buf, value'⟩ := Option.isSome_iff_exists.mp field
      simp [device, value', describes]

theorem selection_run (dev : Device) {word : String} {options : List (String × String)}
    (readable : ∀ driver ∈ drivers, Readable matchToken driver) (ends : matchToken "driver" word = true) :
    ∀ (sels before : List (String × String)) (tokens : List Token) (s : Selection),
      Items tail (sels ++ (word, value) :: options) tokens → Valid matchToken drivers before.length sels →
      s.selected = !before.isEmpty → s.mismatch = (!passes matchToken drivers before earlier dev) →
      Counted matchToken drivers s.number earlier before sels tokens.length →
      ∃ number rest, pciMatchDeviceSelection matchToken drivers dev tokens s =
          some (⟨!(sels.reverse ++ before).isEmpty,
            !passes matchToken drivers (sels.reverse ++ before) earlier dev, number⟩, value, rest) ∧
        Items tail options rest ∧ Counted matchToken drivers number (dev :: earlier) before sels tokens.length ∧
        ∀ at', at' ≤ rest.length ∨ tokens.length ≤ at' → number at' = s.number at' := by
  intro sels
  induction sels with
  | nil =>
    intro before tokens s read valid selected mismatch counted
    cases read with
    | cons some' stops read =>
      have text : ¬(some word : Option String) = some "" := fun same => some' (Option.some.inj same)
      refine ⟨s.number, _, ?_, read, trivial, fun _ _ => rfl⟩
      rw [pciMatchDeviceSelection, assigned_item stops]
      simp only [if_neg text, Option.pure_def, bind_eq_bind, bind_some, ends, if_true,
        reverse_nil, nil_append, ← selected, ← mismatch]
  | cons sel sels ih =>
    intro before tokens s read valid selected mismatch counted
    cases read with
    | @cons name value' stop _ left some' stops read =>
      obtain ⟨other, kind, later⟩ := valid
      obtain ⟨number, step, here, others⟩ := selection_step some' stops readable other kind selected mismatch
        counted.1
      have inside : left.length = 2 * (sels ++ (word, value) :: options).length + tail.length := read.length
      rw [length_append] at inside
      have counted' : Counted matchToken drivers number earlier ((name, value') :: before) sels left.length :=
        Counted.congr (by omega) (fun at' _ low => others at' (by omega)) counted.2
      obtain ⟨number', rest, run, options', counted'', frame⟩ := ih ((name, value') :: before) left
        ⟨true, !passes matchToken drivers ((name, value') :: before) earlier dev, number⟩ read later rfl rfl
        counted'
      have short := options'.length
      rw [length_cons] at inside
      refine ⟨number', rest, ?_, options', ⟨?_, counted''⟩, ?_⟩
      · rw [reverse_cons, append_assoc, singleton_append, ← run]
        exact step
      · intro some'' numbered
        exact (frame left.length (.inr (Nat.le_refl _))).trans (here some'' numbered)
      · intro at' outside
        simp only [length_cons] at outside
        exact (frame at' (by omega)).trans (others at' (by omega))

/-! The options of a segment -/

def store (driver : Driver) (save : Bool) (options : Options) (o : String × String) : Options :=
  (saveDriverOptions save driver o.1 o.2 options).getD options

theorem option_run {driver : Driver} :
    ∀ {items : List (String × String)} {tokens : List Token} (options : Options), Items tail items tokens →
      (∀ o ∈ items, (optionIndex o.1 (driver.driverOptions.getD [])).isSome) →
      optionLoop matchToken (some driver) save tokens options =
        optionLoop matchToken (some driver) save tail (items.foldl (store driver save) options)
  | [], _, options, .nil, _ => rfl
  | (name, value) :: items, _, options, .cons some' stops read, known => by
      obtain ⟨i, place⟩ := Option.isSome_iff_exists.mp (known _ mem_cons_self)
      have text : ¬(some name : Option String) = some "" := fun same => some' (Option.some.inj same)
      have saved : saveDriverOptions save driver name value options =
          some (store driver save options (name, value)) := by
        simp only [store, saveDriverOptions, place, getD_some]
      rw [optionLoop, if_neg text, assigned_item stops]
      simp only [Option.pure_def, bind_eq_bind, bind_some, saved]
      have other : ¬(matchToken "and" name && decide ('=' = ',')) = true := by simp
      rw [if_neg other, option_run _ read (fun o member => known o (mem_cons_of_mem _ member))]
      rfl

theorem optionLoop_end {driver : Option Driver} (ends : atEnd tail = true) (options : Options) :
    optionLoop matchToken driver save tail options = some (options, tail) := by
  cases tail with
  | nil => rfl
  | cons t rest => rw [optionLoop.eq_def]; exact if_pos (by simpa [atEnd] using ends)

theorem optionLoop_and {driver : Option Driver} {word : String} (some' : word ≠ "")
    (ends : matchToken "and" word = true) (options : Options) :
    optionLoop matchToken driver save (⟨some word, ','⟩ :: rest) options = some (options, rest) := by
  have text : ¬(some word : Option String) = some "" := fun same => some' (Option.some.inj same)
  rw [optionLoop.eq_def]
  simp [text, ends]

theorem store_table {driver : Driver} {p : List Token} {n : ℕ} (names : driver.driverOptions = some p)
    (count : optionCount p = some n) (options : List (String × String)) :
    options.foldl (store driver true) (some (List.replicate n none)) = optionTable driver options := by
  induction options using List.reverseRecOn with
  | nil =>
    simp only [foldl_nil, optionTable, names, bind_some, count, map_some, reverse_nil,
      List.find?_nil, map_none, map_const', length_range]
  | append_singleton options o ih =>
    rw [foldl_append, ih, foldl_cons, foldl_nil]
    simp only [store, saveDriverOptions, names, getD_some, optionTable, bind_some, count,
      map_some, reverse_concat]
    cases place : optionIndex o.1 p with
    | none => simp [place]
    | some i =>
      simp only [if_true, getD_some, Option.some.injEq]
      apply ext_getElem?
      intro j
      rw [List.getElem?_set, List.getElem?_map, List.getElem?_map, length_map, length_range]
      by_cases inside : j < n
      · rw [List.getElem?_range inside, map_some, map_some, List.find?_cons, place]
        by_cases same : i = j
        · subst same
          simp [inside]
        · simp [same]
      · have outside : (List.range n)[j]? = none := List.getElem?_eq_none (by rw [length_range]; omega)
        rw [outside]
        split
        · rw [if_neg (by omega)]
          rfl
        · rfl

/-! A segment -/

def advance (matchToken : String → String → Bool) (drivers : List Driver) (earlier : List Device) (dev : Device)
    (c : Choice) (seg : Segment) : Choice :=
  if !c.selected && hits matchToken drivers earlier dev seg then
    ⟨driverOf matchToken drivers seg, true,
      (driverOf matchToken drivers seg).bind fun driver => optionTable driver seg.options⟩
  else c

theorem store_skip (driver : Driver) (options : Options) (items : List (String × String)) :
    items.foldl (store driver false) options = options := by
  induction items with
  | nil => rfl
  | cons o items ih =>
    have same : store driver false options o = options := by
      simp only [store, saveDriverOptions]
      split
      · rfl
      · rfl
    rw [foldl_cons, same, ih]

theorem opened_table {driver : Driver} (built : Readable matchToken driver) {items : List (String × String)}
    (known : ∀ o ∈ items, (optionIndex o.1 (driver.driverOptions.getD [])).isSome) :
    ∃ options, opened true none (some driver) = some options ∧
      items.foldl (store driver true) options = optionTable driver items := by
  cases names : driver.driverOptions with
  | none =>
    have bare : items = [] := by
      apply eq_nil_iff_forall_not_mem.mpr
      intro o member
      have place := known o member
      rw [names] at place
      cases place
    refine ⟨none, by simp [opened, allocDriverOptions, names], ?_⟩
    rw [bare, foldl_nil, optionTable, names, bind_none]
  | some p =>
    obtain ⟨n, count⟩ := Option.isSome_iff_exists.mp (built.options p names)
    exact ⟨some (List.replicate n none), by simp [opened, allocDriverOptions, names, count],
      store_table names count items⟩

def Ends (matchToken : String → String → Bool) (tail rest : List Token) : Prop :=
  ∀ driver save options, optionLoop matchToken driver save tail options = some (options, rest)

theorem driver_run {number : ℕ → ℕ} (readable : ∀ driver ∈ drivers, Readable matchToken driver)
    (formed : WellFormed matchToken drivers seg) (read : Items tail seg.options tokens)
    (ends : Ends matchToken tail rest) (unset : c.selected = false → c.options = none) :
    pciMatchDriverSelection matchToken drivers dev seg.driver tokens
        ⟨!seg.selectors.isEmpty, !passes matchToken drivers seg.selectors.reverse earlier dev, number⟩ c =
      some (advance matchToken drivers earlier dev c seg, rest) := by
  let asks (driver : Option Driver) : Bool :=
    !seg.selectors.isEmpty || (driver.map (ownPattern matchToken dev)).getD false
  have told : hits matchToken drivers earlier dev seg =
      (passes matchToken drivers seg.selectors.reverse earlier dev && asks (driverOf matchToken drivers seg)) := by
    cases empty : seg.selectors.isEmpty with
    | true =>
      have nothing := isEmpty_iff.mp empty
      simp [hits, asks, nothing, passes]
    | false => simp [hits, asks, empty]
  have is : (!!passes matchToken drivers seg.selectors.reverse earlier dev && asks (driverOf matchToken drivers seg) &&
      !c.selected) = (!c.selected && hits matchToken drivers earlier dev seg) := by
    rw [told, Bool.not_not, Bool.and_comm]
  rw [advance, pciMatchDriverSelection]
  rcases formed.driver with ⟨none', bare⟩ | ⟨named, driver, found, known⟩
  · have nobody : driverOf matchToken drivers seg = none := if_pos none'
    have own : asked matchToken dev (!seg.selectors.isEmpty) none = some (asks none) := by simp [asked, asks]
    rw [bare] at read
    cases read
    rw [nobody] at is ⊢
    simp only [namedDriver, if_pos none', own, is, opened, ends _ _ _, bind_eq_bind, bind_some,
      Option.pure_def, bind_none]
    cases hit : !c.selected && hits matchToken drivers earlier dev seg with
    | true =>
      have free : c.selected = false := by simpa using (Bool.and_eq_true_iff.mp hit).1
      simp [unset free]
    | false => simp
  · have someone : driverOf matchToken drivers seg = some driver := by
      rw [driverOf, if_neg (by rw [named]; exact Bool.false_ne_true), found]
    have built := readable driver (mem_of_find?_eq_some found)
    have own : asked matchToken dev (!seg.selectors.isEmpty) (some driver) = some (asks (some driver)) := by
      obtain ⟨same, pattern⟩ := Option.isSome_iff_exists.mp (built.device dev)
      cases empty : seg.selectors.isEmpty with
      | true => simp [asked, asks, empty, ownPattern, pattern]
      | false => simp [asked, asks, empty]
    rw [someone] at is ⊢
    simp only [namedDriver, named, Bool.false_eq_true, if_false, found, map_some, own, is,
      bind_eq_bind, bind_some, Option.pure_def]
    cases hit : !c.selected && hits matchToken drivers earlier dev seg with
    | true =>
      have free : c.selected = false := by simpa using (Bool.and_eq_true_iff.mp hit).1
      obtain ⟨options, start, table⟩ := opened_table built known
      rw [← unset free] at start
      rw [start, bind_some, option_run options read known, table, ends, bind_some]
      simp
    | false =>
      rw [opened, if_neg Bool.false_ne_true, bind_some, option_run _ read known, store_skip, ends,
        bind_some]
      simp

/-! A string -/

/-- The numbers of a string that `earlier` was presented to, with `left` tokens in front of it. -/
def CountedAll (matchToken : String → String → Bool) (drivers : List Driver) (number : ℕ → ℕ) (earlier : List Device) :
    List Segment → ℕ → Prop
  | [], _ => True
  | seg :: segs, left => Counted matchToken drivers number earlier [] seg.selectors left ∧
      CountedAll matchToken drivers number earlier segs
        (left - (2 * (seg.selectors.length + 1 + seg.options.length) + 1))

theorem CountedAll.start : ∀ (segs : List Segment) (left : ℕ), CountedAll matchToken drivers (fun _ => 0) [] segs left
  | [], _ => trivial
  | seg :: segs, left => by
      refine ⟨?_, CountedAll.start segs _⟩
      generalize seg.selectors = sels
      generalize ([] : List (String × String)) = before
      induction sels generalizing before left with
      | nil => trivial
      | cons sel sels ih => exact ⟨fun _ _ => rfl, ih _ _⟩

theorem Spelled.length (spelled : Spelled matchToken seg tokens tail) :
    tokens.length = 2 * (seg.selectors.length + 1 + seg.options.length) + tail.length := by
  obtain ⟨word, -, items⟩ := spelled
  have length := items.length
  rw [length_append, length_cons] at length
  omega

theorem Spelled.behind {t : Token} (spelled : Spelled matchToken seg tokens (t :: rest)) :
    tokens.length - (2 * (seg.selectors.length + 1 + seg.options.length) + 1) = rest.length := by
  have length := spelled.length
  rw [length_cons] at length
  omega

theorem CountedAll.congr {number other : ℕ → ℕ} {segs : List Segment} (written : Written matchToken segs tokens)
    (same : ∀ at', at' < tokens.length → other at' = number at')
    (counted : CountedAll matchToken drivers number earlier segs tokens.length) :
    CountedAll matchToken drivers other earlier segs tokens.length := by
  induction written with
  | nil => trivial
  | last spelled =>
    have length := spelled.length
    exact ⟨counted.1.congr (by omega) (fun at' _ below => same at' below), trivial⟩
  | @cons seg _ segs tokens rest spelled _ _ _ ih =>
    have behind := spelled.behind
    have length := spelled.length
    refine ⟨counted.1.congr (by omega) (fun at' _ below => same at' below), ?_⟩
    have later := counted.2
    rw [behind] at later ⊢
    exact ih (fun at' below => same at' (by omega)) later

theorem segment_step (dev : Device) (readable : ∀ driver ∈ drivers, Readable matchToken driver)
    (formed : WellFormed matchToken drivers seg) (spelled : Spelled matchToken seg tokens tail)
    (ends : Ends matchToken tail rest) {number : ℕ → ℕ}
    (counted : Counted matchToken drivers number earlier [] seg.selectors tokens.length)
    (unset : c.selected = false → c.options = none) (fuel : ℕ) :
    ∃ number', segmentLoop matchToken drivers dev (fuel + 1) tokens number c =
        segmentLoop matchToken drivers dev fuel rest number' (advance matchToken drivers earlier dev c seg) ∧
      Counted matchToken drivers number' (dev :: earlier) [] seg.selectors tokens.length ∧
      ∀ at', at' ≤ tail.length ∨ tokens.length ≤ at' → number' at' = number at' := by
  obtain ⟨word, driver', items⟩ := spelled
  obtain ⟨number', left, run, options, counted', frame⟩ := selection_run dev readable driver' seg.selectors []
    tokens ⟨false, false, number⟩ items formed.selectors rfl rfl counted
  rw [append_nil, isEmpty_reverse] at run
  refine ⟨number', ?_, counted', ?_⟩
  · cases tokens with
    | nil => cases run
    | cons t tokens =>
      rw [segmentLoop]
      have text : ¬t.text = some "" := by
        intro empty
        cases tokens with
        | nil => cases run
        | cons value tokens => simp [pciMatchDeviceSelection, empty] at run
      simp only [if_neg text, run, bind_eq_bind, bind_some,
        driver_run readable formed options ends unset]
  · intro at' outside
    have length := options.length
    exact frame at' (by omega)

theorem segment_run (dev : Device) (readable : ∀ driver ∈ drivers, Readable matchToken driver) {segs : List Segment}
    (written : Written matchToken segs tokens) (formed : ∀ seg ∈ segs, WellFormed matchToken drivers seg) (fuel : ℕ)
    (number : ℕ → ℕ) (c : Choice) (enough : tokens.length < fuel)
    (counted : CountedAll matchToken drivers number earlier segs tokens.length)
    (unset : c.selected = false → c.options = none) :
    ∃ number', segmentLoop matchToken drivers dev fuel tokens number c =
        some (segs.foldl (advance matchToken drivers earlier dev) c, number') ∧
      CountedAll matchToken drivers number' (dev :: earlier) segs tokens.length ∧
      ∀ at', tokens.length ≤ at' → number' at' = number at' := by
  have stops : ∀ {tokens : List Token}, atEnd tokens = true → ∀ fuel number c,
      segmentLoop matchToken drivers dev (fuel + 1) tokens number c = some (c, number) := by
    intro tokens ended fuel number c
    cases tokens with
    | nil => rfl
    | cons t tokens => rw [segmentLoop]; exact if_pos (by simpa [atEnd] using ended)
  have still : ∀ c seg, (c.selected = false → c.options = none) →
      (advance matchToken drivers earlier dev c seg).selected = false →
      (advance matchToken drivers earlier dev c seg).options = none := by
    intro c seg unset free
    rw [advance] at free ⊢
    split at free
    · cases free
    · rw [if_neg ‹_›]
      exact unset free
  induction written generalizing fuel number c with
  | nil ended =>
    obtain ⟨fuel, rfl⟩ : ∃ n, fuel = n + 1 := ⟨fuel - 1, by omega⟩
    exact ⟨number, stops ended fuel number c, trivial, fun _ _ => rfl⟩
  | last spelled ended =>
    have length := spelled.length
    obtain ⟨fuel, rfl⟩ : ∃ n, fuel = n + 1 + 1 := ⟨fuel - 2, by omega⟩
    obtain ⟨number', step, counted', frame⟩ := segment_step dev readable (formed _ mem_cons_self) spelled
      (fun _ _ => optionLoop_end ended) counted.1 unset (fuel + 1)
    exact ⟨number', step.trans (stops ended _ _ _), ⟨counted', trivial⟩, fun at' above => frame at' (.inr above)⟩
  | @cons seg word segs tokens rest spelled some' ends written ih =>
    have length := spelled.length
    rw [length_cons] at length
    obtain ⟨fuel, rfl⟩ : ∃ n, fuel = n + 1 := ⟨fuel - 1, by omega⟩
    obtain ⟨number', step, counted', frame⟩ := segment_step dev readable (formed _ mem_cons_self) spelled
      (fun _ _ => optionLoop_and some' ends) counted.1 unset fuel
    rw [length_cons] at frame
    have later := counted.2
    rw [spelled.behind] at later
    obtain ⟨number'', run, counted'', frame'⟩ := ih (fun seg member => formed seg (mem_cons_of_mem _ member))
      fuel number' _ (by omega) (later.congr written (fun at' below => frame at' (by omega)))
      (still c seg unset)
    refine ⟨number'', step.trans run, ⟨counted'.congr (by omega) (fun at' above _ => frame' at' (by omega)), ?_⟩, ?_⟩
    · rw [spelled.behind]
      exact counted''
    · intro at' above
      rw [frame' at' (by omega), frame at' (.inr above)]

theorem advance_done (done : c.selected = true) (segs : List Segment) :
    segs.foldl (advance matchToken drivers earlier dev) c = c := by
  induction segs with
  | nil => rfl
  | cons seg segs ih =>
    have same : advance matchToken drivers earlier dev c seg = c := by simp [advance, done]
    rw [foldl_cons, same, ih]

theorem advance_chosen (matchToken : String → String → Bool) (drivers : List Driver) (earlier : List Device)
    (dev : Device) (segs : List Segment) :
    let c := segs.foldl (advance matchToken drivers earlier dev) ⟨none, false, none⟩
    c.driver.map (fun driver => (driver, c.options)) = chosen matchToken drivers segs earlier dev := by
  induction segs with
  | nil => rfl
  | cons seg segs ih =>
    rw [foldl_cons, advance, chosen, List.find?_cons]
    cases hit : hits matchToken drivers earlier dev seg with
    | false => exact ih
    | true =>
      simp only [Bool.not_false, Bool.and_self, if_true, advance_done, bind_some]
      cases driverOf matchToken drivers seg with
      | none => rfl
      | some driver => rfl

/-! All strings -/

/-- The strings of `config` and the compatibility list, and their numbers after `earlier` was presented: each string
is asked only about the devices that those before it chose no driver for. -/
inductive Tracks (matchToken : String → String → Bool) (drivers : List Driver) :
    List (List Segment) → List Device → List (List Token × (ℕ → ℕ)) → Prop
  | nil {earlier : List Device} : Tracks matchToken drivers [] earlier []
  | cons {segs : List Segment} {p : List Token} {number : ℕ → ℕ} {earlier : List Device}
      {later : List (List Segment)} {strings : List (List Token × (ℕ → ℕ))} :
      Written matchToken segs p → (∀ seg ∈ segs, WellFormed matchToken drivers seg) →
        CountedAll matchToken drivers number earlier segs p.length →
        Tracks matchToken drivers later
            (keep (fun es d => (chosen matchToken drivers segs es d).isNone) earlier) strings →
          Tracks matchToken drivers (segs :: later) earlier ((p, number) :: strings)

theorem find_run (dev : Device) (readable : ∀ driver ∈ drivers, Readable matchToken driver)
    {strings : List (List Token × (ℕ → ℕ))} (tracks : Tracks matchToken drivers segss earlier strings) :
    ∃ strings', pciMatchFindDriver matchToken drivers dev strings =
        some (selected matchToken drivers segss earlier dev, strings') ∧
      Tracks matchToken drivers segss (dev :: earlier) strings' := by
  induction tracks with
  | nil => exact ⟨[], rfl, .nil⟩
  | @cons segs p number earlier later strings written formed counted tracks ih =>
    obtain ⟨number', run, counted', -⟩ := segment_run dev readable written formed (p.length + 1) number
      ⟨none, false, none⟩ (Nat.lt_succ_self _) counted (fun _ => rfl)
    have choice := advance_chosen matchToken drivers earlier dev segs
    rw [pciMatchFindDriver, pciMatchFindDriverSub, run, selected, ← choice]
    simp only [bind_eq_bind, bind_some]
    cases driver : (segs.foldl (advance matchToken drivers earlier dev) ⟨none, false, none⟩).driver with
    | some driver' =>
      refine ⟨(p, number') :: strings, rfl, .cons written formed counted' ?_⟩
      rw [keep, if_neg (by rw [← choice, driver]; exact Bool.false_ne_true)]
      exact tracks
    | none =>
      obtain ⟨strings', found, tracks'⟩ := ih
      refine ⟨(p, number') :: strings', ?_, .cons written formed counted' ?_⟩
      · simp only [found, bind_some, Option.pure_def, map_none, Option.none_or]
      · rw [keep, if_pos (by rw [← choice, driver]; rfl)]
        exact tracks'

theorem present_run (readable : ∀ driver ∈ drivers, Readable matchToken driver) :
    ∀ {earlier : List Device} (devs : List Device) {strings : List (List Token × (ℕ → ℕ))},
      Tracks matchToken drivers segss earlier strings →
        present matchToken drivers devs strings = some (selections matchToken drivers segss earlier devs)
  | _, [], _, _ => rfl
  | earlier, dev :: devs, strings, tracks => by
      obtain ⟨strings', found, tracks'⟩ := find_run dev readable tracks
      rw [present, found]
      simp only [bind_eq_bind, bind_some, present_run readable devs tracks', Option.pure_def, selections]

theorem rank_eq (p : List Device → Device → Bool) (devs : List Device) : rank p devs = (keep p devs).length := by
  induction devs with
  | nil => rfl
  | cons dev earlier ih =>
    rw [rank, keep, ih]
    split
    · rfl
    · rfl

theorem keep_number {k : ℕ} {name : String} {before : List (String × String)} (some' : before ≠ [])
    (number : matchToken "number" name = true) (only : ∀ n, matchToken (toString n) value = decide (n = k))
    (devs : List Device) :
    keep (passes matchToken drivers ((name, value) :: before)) devs =
      ((keep (passes matchToken drivers before) devs).reverse[k]?).toList := by
  have behind : (!before.isEmpty) = true := by simpa using some'
  induction devs with
  | nil => rfl
  | cons dev earlier ih =>
    rw [keep, keep, ih]
    have holds : passes matchToken drivers ((name, value) :: before) earlier dev =
        (passes matchToken drivers before earlier dev &&
          decide ((keep (passes matchToken drivers before) earlier).length = k)) := by
      rw [passes, if_pos (by rw [behind, number]; rfl), only, rank_eq]
    rw [holds]
    cases passes matchToken drivers before earlier dev with
    | false => rfl
    | true =>
      rw [if_pos rfl, reverse_cons, Bool.true_and]
      by_cases last : (keep (passes matchToken drivers before) earlier).length = k
      · subst last
        simp
      · rw [if_neg (by simpa using last), List.getElem?_append, length_reverse]
        split
        · rfl
        · rw [List.getElem?_eq_none (by rw [length_reverse]; omega),
            List.getElem?_eq_none (by rw [length_singleton]; omega)]

theorem Tracks.start {strings : List (List Token)} (written : List.Forall₂ (Written matchToken) segss strings)
    (formed : ∀ segs ∈ segss, ∀ seg ∈ segs, WellFormed matchToken drivers seg) :
    Tracks matchToken drivers segss [] (strings.map fun p => (p, fun _ => 0)) := by
  induction written with
  | nil => exact .nil
  | cons first _ ih =>
    exact .cons first (formed _ mem_cons_self) (CountedAll.start _ _)
      (ih fun segs member => formed segs (mem_cons_of_mem _ member))

/-- Every device gets the driver of the first segment that hits in the first string where this segment names one, with
the options of this segment; and a number selects the device of this rank. -/
theorem selection_exact (readable : ∀ driver ∈ drivers, Readable matchToken driver) {segss : List (List Segment)}
    {strings : List (List Token)} (written : List.Forall₂ (Written matchToken) segss strings)
    (formed : ∀ segs ∈ segss, ∀ seg ∈ segs, WellFormed matchToken drivers seg) (devs : List Device) :
    present matchToken drivers devs (strings.map fun p => (p, fun _ => 0)) =
        some (selections matchToken drivers segss [] devs) ∧
      ∀ before name value k, before ≠ [] → matchToken "number" name = true →
        (∀ n : ℕ, matchToken (toString n) value = decide (n = k)) →
          keep (passes matchToken drivers ((name, value) :: before)) devs.reverse =
            ((keep (passes matchToken drivers before) devs.reverse).reverse[k]?).toList :=
  ⟨present_run readable devs (.start written formed),
    fun _ _ _ _ some' number only => keep_number some' number only devs.reverse⟩

/-- `match_token` on texts without quotations and wildcards. -/
def sameText (str token : String) : Bool := str == token

def uhci : Driver := ⟨"uhci", [⟨some "class_code", '='⟩, ⟨some "0c0300", '\x00'⟩], none⟩

def piix3 : Device := ⟨0, 1, 2, 0x0c0300, 0x8086, 0x7020, 0, 0, 1, 0, 0⟩

def secondUhci : List Token :=
  [⟨some "device", '='⟩, ⟨some "uhci", ','⟩, ⟨some "number", '='⟩, ⟨some "1", ','⟩, ⟨some "driver", '='⟩,
    ⟨some "uhci", '\x00'⟩]

theorem selection_exact_second :
    present sameText [uhci] [piix3, piix3] ([secondUhci].map fun p => (p, fun _ => 0)) =
      some (selections sameText [uhci] [[⟨[("device", "uhci"), ("number", "1")], "uhci", []⟩]] [] [piix3, piix3]) := by
  refine (selection_exact ?_ (.cons ?_ .nil) ?_ [piix3, piix3]).1
  · intro driver member
    cases mem_singleton.mp member
    refine ⟨fun dev => ?_, fun p names => by cases names⟩
    have value : getValue sameText "class_code" dev = some (hex 6 dev.classCode) := rfl
    simp only [uhci, pciMatch, assigned, Option.some.injEq, String.reduceEq, if_false, true_and, or_true, if_true,
      bind_eq_bind, bind_some, value]
    split
    · rfl
    · rfl
  · exact .last ⟨"driver", by decide, .cons (by decide) (by decide) (.cons (by decide) (by decide)
      (.cons (by decide) (by decide) .nil))⟩ rfl
  · intro segs member seg member'
    cases mem_singleton.mp member
    cases mem_singleton.mp member'
    exact ⟨⟨by decide, .inr (.inl (by decide)), by decide, .inl (by decide), trivial⟩,
      .inr ⟨by decide, uhci, rfl, fun o member => by cases member⟩⟩

/-- The string `device=uhci,driver=none` hits, but `driver=uhci` in the list behind it gets the device; and a number in
front of all selectors is a syntax error. -/
theorem none_not_final :
    hits sameText [uhci] [] piix3 ⟨[("device", "uhci")], "none", []⟩ = true ∧
      (driverOf sameText [uhci] ⟨[("device", "uhci")], "none", []⟩).isNone ∧
      (present sameText [uhci] [piix3]
        [([⟨some "device", '='⟩, ⟨some "uhci", ','⟩, ⟨some "driver", '='⟩, ⟨some "none", '\x00'⟩], fun _ => 0),
          ([⟨some "driver", '='⟩, ⟨some "uhci", '\x00'⟩], fun _ => 0)]).map
            (List.map (Option.map fun choice => choice.1.name)) = some [some "uhci"] ∧
      (present sameText [uhci] [piix3]
        [([⟨some "number", '='⟩, ⟨some "0", ','⟩, ⟨some "driver", '='⟩, ⟨some "uhci", '\x00'⟩],
          fun _ => 0)]).isNone := by
  decide +kernel

end DisasVisor.Pci.Match
