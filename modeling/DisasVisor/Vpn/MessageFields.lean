import DisasVisor.Lib.MaximalRuns
import DisasVisor.Vpn.KernelCore

/-!
The DisasVisor message format as a language, independent of the scanner: the
keyword, then version, disaster type and the two dialog offsets between runs of
delimiters, then the detailed info.
-/

namespace DisasVisor.Vpn

open MaximalRuns

def isNonDelimiter (c : UInt8) : Bool := !isDelimiter c

structure Header where
  d1 : List UInt8
  version : List UInt8
  d2 : List UInt8
  disasterType : List UInt8
  d3 : List UInt8
  offsetX : List UInt8
  d4 : List UInt8
  offsetY : List UInt8
  d5 : List UInt8
  shape : RunsOf [isDelimiter, isNonDelimiter, isDelimiter, isDigit, isDelimiter, isDigit,
      isDelimiter, isDigit, isDelimiter]
    [d1, version, d2, disasterType, d3, offsetX, d4, offsetY, d5]

namespace Header

def runs (header : Header) : List (List UInt8) :=
  [header.d1, header.version, header.d2, header.disasterType, header.d3, header.offsetX,
    header.d4, header.offsetY, header.d5]

def bytes (header : Header) : List UInt8 := disasvisorKeyword ++ header.runs.flatten

def NulFree (header : Header) : Prop := ∀ c ∈ header.version, c ≠ 0

end Header

def decimal (digits : List UInt8) : Nat := digits.foldl (fun value c => value * 10 + (c.toNat - 0x30)) 0

def BeginsInfo (c : UInt8) : Prop := c ≠ 0 ∧ isDelimiter c = false

def HeaderUnfinished (word : List UInt8) : Prop := ∃ header : Header, header.NulFree ∧ word <+: header.bytes

def scannedClasses : List (UInt8 → Bool) :=
  [isDelimiter, isVersionChar, isDelimiter, isDigit, isDelimiter, isDigit, isDelimiter, isDigit, isDelimiter]

section

variable (c : UInt8)
include c

theorem isDigit_not_delimiter (digit : isDigit c = true) : isDelimiter c = false := by
  cases delimiter : isDelimiter c with
  | false => rfl
  | true =>
    simp only [isDelimiter, Bool.or_eq_true, decide_eq_true_eq] at delimiter
    rcases delimiter with ((rfl | rfl) | rfl) | rfl <;> revert digit <;> decide

theorem isDelimiter_not_digit (delimiter : isDelimiter c = true) : isDigit c = false := by
  cases digit : isDigit c with
  | false => rfl
  | true =>
    rw [isDigit_not_delimiter c digit] at delimiter
    exact absurd delimiter Bool.false_ne_true

theorem isDigit_ne_zero (digit : isDigit c = true) : c ≠ 0 := by
  rintro rfl
  revert digit
  decide

theorem isVersionChar_iff : isVersionChar c = true ↔ c ≠ 0 ∧ isDelimiter c = false := by
  simp [isVersionChar]

theorem isVersionChar_not_delimiter (version : isVersionChar c = true) : isDelimiter c = false :=
  ((isVersionChar_iff c).mp version).2

theorem isDelimiter_not_versionChar (delimiter : isDelimiter c = true) : isVersionChar c = false := by
  simp [isVersionChar, delimiter]

end

theorem scannedClasses_separated : Separated scannedClasses := by
  simp only [Separated, scannedClasses, List.isChain_cons_cons, List.isChain_singleton, and_true]
  exact ⟨isVersionChar_not_delimiter, isDelimiter_not_versionChar, isDigit_not_delimiter,
    isDelimiter_not_digit, isDigit_not_delimiter, isDelimiter_not_digit, isDigit_not_delimiter,
    isDelimiter_not_digit⟩

theorem headerClasses_separated :
    Separated [isDelimiter, isNonDelimiter, isDelimiter, isDigit, isDelimiter, isDigit,
      isDelimiter, isDigit, isDelimiter] := by
  have nonDelimiter (c : UInt8) (inside : isNonDelimiter c = true) : isDelimiter c = false := by
    simpa [isNonDelimiter] using inside
  have delimiter (c : UInt8) (inside : isDelimiter c = true) : isNonDelimiter c = false := by
    simp [isNonDelimiter, inside]
  simp only [Separated, List.isChain_cons_cons, List.isChain_singleton, and_true]
  exact ⟨nonDelimiter, delimiter, isDigit_not_delimiter, isDelimiter_not_digit,
    isDigit_not_delimiter, isDelimiter_not_digit, isDigit_not_delimiter, isDelimiter_not_digit⟩

theorem runsOf_scannedClasses_iff {runs : List (List UInt8)} :
    RunsOf scannedClasses runs ↔ ∃ header : Header, header.NulFree ∧ runs = header.runs := by
  constructor
  · intro shape
    have whole := shape
    obtain ⟨d1, runs, rfl, _, _, shape⟩ := shape.cons_inv
    obtain ⟨version, runs, rfl, _, versionIn, shape⟩ := shape.cons_inv
    obtain ⟨d2, runs, rfl, _, _, shape⟩ := shape.cons_inv
    obtain ⟨disasterType, runs, rfl, _, _, shape⟩ := shape.cons_inv
    obtain ⟨d3, runs, rfl, _, _, shape⟩ := shape.cons_inv
    obtain ⟨offsetX, runs, rfl, _, _, shape⟩ := shape.cons_inv
    obtain ⟨d4, runs, rfl, _, _, shape⟩ := shape.cons_inv
    obtain ⟨offsetY, runs, rfl, _, _, shape⟩ := shape.cons_inv
    obtain ⟨d5, runs, rfl, _, _, shape⟩ := shape.cons_inv
    cases shape
    have inVersion (c : UInt8) (member : c ∈ version) : c ≠ 0 ∧ isDelimiter c = false :=
      (isVersionChar_iff c).mp (versionIn c member)
    refine ⟨⟨d1, version, d2, disasterType, d3, offsetX, d4, offsetY, d5, ?_⟩,
      fun c member => (inVersion c member).1, rfl⟩
    simp only [RunsOf, scannedClasses, List.forall₂_cons, List.Forall₂.nil, and_true] at whole ⊢
    refine ⟨whole.1, ⟨whole.2.1.1, ?_⟩, whole.2.2⟩
    intro c member
    simp [isNonDelimiter, (inVersion c member).2]
  · rintro ⟨header, nulFree, rfl⟩
    have shape := header.shape
    simp only [RunsOf, scannedClasses, Header.runs, List.forall₂_cons, List.Forall₂.nil, and_true] at shape ⊢
    refine ⟨shape.1, ⟨shape.2.1.1, ?_⟩, shape.2.2⟩
    intro c member
    have outside := shape.2.1.2 c member
    rw [isVersionChar_iff]
    exact ⟨nulFree c member, by simpa [isNonDelimiter] using outside⟩

theorem Header.runs_injective {first second : Header} (same : first.runs = second.runs) : first = second := by
  cases first
  cases second
  simp only [Header.runs, List.cons.injEq] at same
  obtain ⟨rfl, rfl, rfl, rfl, rfl, rfl, rfl, rfl, rfl, -⟩ := same
  rfl

theorem header_unique {first second : Header} {left right : List UInt8}
    (leftInfo : Stops isDelimiter left) (rightInfo : Stops isDelimiter right)
    (same : first.bytes ++ left = second.bytes ++ right) : first = second ∧ left = right := by
  simp only [Header.bytes, List.append_assoc, List.append_cancel_left_eq] at same
  have stops (word : List UInt8) (info : Stops isDelimiter word) :
      StopsAfter [isDelimiter, isNonDelimiter, isDelimiter, isDigit, isDelimiter, isDigit,
        isDelimiter, isDigit, isDelimiter] word := by
    intro cls last
    simp only [List.getLast?_cons_cons, List.getLast?_singleton, Option.mem_def, Option.some.injEq] at last
    subst cls
    exact info
  obtain ⟨runs, rest⟩ := runs_unique headerClasses_separated first.shape second.shape
    (stops left leftInfo) (stops right rightInfo) same
  exact ⟨Header.runs_injective runs, rest⟩

theorem headerUnfinished_append_iff {word : List UInt8} :
    HeaderUnfinished (disasvisorKeyword ++ word) ↔ Unfinished scannedClasses word := by
  constructor
  · rintro ⟨header, nulFree, more⟩
    refine ⟨header.runs, runsOf_scannedClasses_iff.mpr ⟨header, nulFree, rfl⟩, ?_⟩
    exact (List.prefix_append_right_inj disasvisorKeyword).mp more
  · rintro ⟨runs, shape, more⟩
    obtain ⟨header, nulFree, rfl⟩ := runsOf_scannedClasses_iff.mp shape
    exact ⟨header, nulFree, (List.prefix_append_right_inj disasvisorKeyword).mpr more⟩

def shortestHeader : Header where
  d1 := [0x20]
  version := [0x31]
  d2 := [0x20]
  disasterType := [0x31]
  d3 := [0x20]
  offsetX := [0x30]
  d4 := [0x20]
  offsetY := [0x30]
  d5 := [0x20]
  shape := by decide

theorem shortestHeader_nulFree : shortestHeader.NulFree := by
  simp [Header.NulFree, shortestHeader]

/-!
The scan loops of `handle_disasvisor_message` in terms of the message format:
up to where they read, and on which texts they reach the detailed info.
-/

open List

def ReadsBelow (limit : Nat) : Event → Prop
  | .read _ index => index < limit
  | _ => True

/-- A condition on events that allows a read of the frame exactly below `limit`. -/
structure ReadLimit (good : Event → Prop) (packet : Frame) (limit : Nat) : Prop where
  read : ∀ index, good (.read packet index) ↔ index < limit
  storedPicture : ∀ number x y, good (.storedPicture number x y)
  storedLetter : ∀ asciiCode x y, good (.storedLetter asciiCode x y)

theorem readLimit_readsBelow (packet : Frame) (limit : Nat) : ReadLimit (ReadsBelow limit) packet limit where
  read := fun _ => Iff.rfl
  storedPicture := fun _ _ _ => trivial
  storedLetter := fun _ _ _ => trivial

section Scan

variable {σ τ : Type} {good : Event → Prop} {packet : Frame} {limit : Nat}
  {keep leave : UInt8 → Bool} {step : σ → UInt8 → σ}

theorem always_scan (bounds : ReadLimit good packet limit) (run tail : List UInt8)
    (inside : ∀ c ∈ run, keep c = true) (stops : Stops keep tail) :
    ∀ result pos, Traced.Always good
        (scan packet keep leave step result pos (run ++ tail)) ↔ pos + run.length < limit := by
  induction run with
  | nil =>
    intro result pos
    cases tail with
    | nil => simp [scan, bounds.read]
    | cons c tail =>
      rw [stops_cons] at stops
      simp only [nil_append, scan, Traced.always_emit_bind, bounds.read, stops,
        Bool.false_eq_true, if_false, length_nil, Nat.add_zero]
      split <;> simp
  | cons c run ih =>
    intro result pos
    have head : keep c = true := inside c mem_cons_self
    have step := ih (fun c member => inside c (mem_cons_of_mem _ member))
    simp only [cons_append, scan, Traced.always_emit_bind, bounds.read, head, if_true, step, length_cons]
    omega

theorem scan_fault (run : List UInt8) (inside : ∀ c ∈ run, keep c = true) :
    ∀ result pos, (scan packet keep leave step result pos run).flow = .fault := by
  induction run with
  | nil => simp [scan, Traced.emit_bind]
  | cons c run ih =>
    intro result pos
    have head : keep c = true := inside c mem_cons_self
    simp only [scan, Traced.emit_bind, head, if_true]
    exact ih (fun c member => inside c (mem_cons_of_mem _ member)) _ _

theorem scan_run (run tail : List UInt8) (c : UInt8) (inside : ∀ c ∈ run, keep c = true)
    (outside : keep c = false) :
    ∀ result pos value,
      (scan packet keep leave step result pos (run ++ c :: tail)).flow = .next value ↔
        leave c = true ∧ value = (run.foldl step result, ⟨pos + run.length, c :: tail⟩) := by
  induction run with
  | nil =>
    intro result pos value
    by_cases left : leave c = true
    · simp only [nil_append, scan, Traced.emit_bind, outside, Bool.false_eq_true, if_false,
        left, if_true, Traced.flow_pure, Traced.Flow.next.injEq, true_and, foldl_nil,
        length_nil, Nat.add_zero, eq_comm]
    · simp [scan, Traced.emit_bind, outside, left]
  | cons first run ih =>
    intro result pos value
    have head : keep first = true := inside first mem_cons_self
    have advanced : pos + 1 + run.length = pos + (first :: run).length := by
      simp only [length_cons]
      omega
    simp only [cons_append, scan, Traced.emit_bind, head, if_true, foldl_cons]
    rw [ih (fun c member => inside c (mem_cons_of_mem _ member)), advanced]

theorem scan_next (rest : List UInt8) (result : σ) (pos : Nat) (value : σ × Cursor) :
    (scan packet keep leave step result pos rest).flow = .next value ↔
      ∃ run c tail, rest = run ++ c :: tail ∧ (∀ c ∈ run, keep c = true) ∧ keep c = false ∧
        leave c = true ∧ value = (run.foldl step result, ⟨pos + run.length, c :: tail⟩) := by
  constructor
  · intro falls
    obtain ⟨run, tail, rfl, inside, stops⟩ := exists_run keep rest
    cases tail with
    | nil =>
      rw [append_nil, scan_fault run inside] at falls
      simp at falls
    | cons c tail =>
      rw [stops_cons] at stops
      obtain ⟨left, same⟩ := (scan_run run tail c inside stops _ _ _).mp falls
      exact ⟨run, c, tail, rfl, inside, stops, left, same⟩
  · rintro ⟨run, c, tail, rfl, inside, outside, left, same⟩
    exact (scan_run run tail c inside outside _ _ _).mpr ⟨left, same⟩

theorem faultsOn_scan (rest : List UInt8) :
    ∀ result pos limit, limit = pos + rest.length →
      Traced.FaultsOn (fun event => ¬ ReadsBelow limit event) (scan packet keep leave step result pos rest) := by
  induction rest with
  | nil =>
    rintro result pos limit rfl
    simp [scan, Traced.FaultsOn, Traced.emit_bind, ReadsBelow]
  | cons c rest ih =>
    intro result pos limit bound
    simp only [length_cons] at bound
    apply Traced.faultsOn_bind
    · exact Traced.faultsOn_emit (by simp only [ReadsBelow]; omega)
    · intro _ _
      split
      · exact ih _ _ _ (by omega)
      · split
        · exact Traced.faultsOn_pure _
        · exact Traced.faultsOn_returned

theorem take_cons_below {c : UInt8} {tail : List UInt8} {pos : Nat} (below : pos < limit) :
    (c :: tail).take (limit - pos) = c :: tail.take (limit - pos - 1) := by
  obtain ⟨more, split⟩ : ∃ more, limit - pos = more + 1 := ⟨limit - pos - 1, by omega⟩
  rw [split, take_succ_cons, Nat.add_sub_cancel]

theorem unfinished_inside {classes : List (UInt8 → Bool)} {run : List UInt8}
    (separated : Separated (keep :: classes)) (shape : Unfinished (keep :: classes) [])
    (inside : ∀ c ∈ run, keep c = true) : Unfinished (keep :: classes) run := by
  by_cases empty : run = []
  · rw [empty]
    exact shape
  · have joined := unfinished_run separated empty inside (stops_nil keep)
    rw [append_nil] at joined
    exact joined.mpr shape.tail

theorem faultsOn_scan_bind {next : σ × Cursor → Traced Event τ} (pos : Nat) (rest : List UInt8)
    (result : σ) (whole : pos + rest.length = limit) (continues : ∀ value pos rest, pos + rest.length = limit →
      Traced.FaultsOn (fun event => ¬ ReadsBelow limit event) (next (value, ⟨pos, rest⟩))) :
    Traced.FaultsOn (fun event => ¬ ReadsBelow limit event) (scan packet keep leave step result pos rest >>= next) := by
  apply Traced.faultsOn_bind (faultsOn_scan rest result pos limit whole.symm)
  intro value falls
  obtain ⟨run, c, tail, rfl, -, -, -, rfl⟩ := (scan_next _ _ _ _).mp falls
  apply continues
  rw [length_append] at whole
  omega

theorem onlyReads_scan (rest : List UInt8) :
    ∀ result pos, Traced.Always (fun event => ∃ index, event = .read packet index)
      (scan packet keep leave step result pos rest) := by
  induction rest with
  | nil => simp [scan]
  | cons c rest ih =>
    intro result pos
    simp only [scan, Traced.always_emit_bind]
    refine ⟨⟨pos, rfl⟩, ?_⟩
    split
    · exact ih _ _
    · split <;> simp

theorem reads_stage (bounds : ReadLimit good packet limit) {classes : List (UInt8 → Bool)}
    {next : σ × Cursor → Traced Event τ} (separated : Separated (keep :: classes))
    (shape : Unfinished (keep :: classes) [])
    (rejects : ∀ c tail, keep c = false → leave c = false → ¬ Unfinished classes (c :: tail))
    (continues : ∀ value pos c tail, keep c = false → leave c = true → pos < limit →
      limit ≤ pos + (c :: tail).length →
      (Traced.Always good (next (value, ⟨pos, c :: tail⟩)) ↔ ¬ Unfinished classes ((c :: tail).take (limit - pos))))
    (result : σ) (pos : Nat) (rest : List UInt8) (bound : limit ≤ pos + rest.length)
    (starts : ∀ c ∈ rest.head?, keep c = true ∨ leave c = false) :
    Traced.Always good (scan packet keep leave step result pos rest >>= next) ↔
      ¬ Unfinished (keep :: classes) (rest.take (limit - pos)) := by
  obtain ⟨run, tail, rfl, inside, stops⟩ := exists_run keep rest
  rw [Traced.always_bind, always_scan bounds run tail inside stops]
  rw [length_append] at bound
  by_cases below : pos + run.length < limit
  · cases tail with
    | nil =>
      simp only [length_nil] at bound
      omega
    | cons c tail =>
      rw [stops_cons] at stops
      have cut : (run ++ c :: tail).take (limit - pos) = run ++ (c :: tail).take (limit - (pos + run.length)) := by
        rw [take_append, take_of_length_le (by omega), Nat.sub_add_eq]
      have ends (value : σ × Cursor) :
          (scan packet keep leave step result pos (run ++ c :: tail)).flow = .next value ↔
            leave c = true ∧ value = (run.foldl step result, ⟨pos + run.length, c :: tail⟩) :=
        scan_run run tail c inside stops result pos value
      simp only [cut, below, true_and, ends]
      by_cases empty : run = []
      · subst empty
        have refused : leave c = false := (starts c rfl).resolve_left (by simp [stops])
        have outside (word : List UInt8) : ¬ Unfinished (keep :: classes) (c :: word) := not_unfinished stops
        simp only [refused, Bool.false_eq_true, false_and, false_implies, implies_true,
          nil_append, take_cons_below below, outside, not_false_eq_true]
      · have taken : Stops keep ((c :: tail).take (limit - (pos + run.length))) := by
          rw [take_cons_below below, stops_cons]
          exact stops
        rw [unfinished_run separated empty inside taken]
        by_cases left : leave c = true
        · have rest := continues (run.foldl step result) (pos + run.length) c tail stops left
            below (by omega)
          simp only [left, true_and, forall_eq, rest]
        · have refused : leave c = false := by simpa using left
          have closed := rejects c (tail.take (limit - (pos + run.length) - 1)) stops refused
          simp [refused, take_cons_below below, closed]
  · have cutInside : ∀ c ∈ run.take (limit - pos), keep c = true :=
      fun c member => inside c (mem_of_mem_take member)
    have unfinished := unfinished_inside separated shape cutInside
    rw [take_append_of_le_length (by omega)]
    simp only [below, false_and, unfinished, not_true_eq_false]

end Scan

section Fields

variable {τ : Type} {good : Event → Prop} {packet : Frame} {limit : Nat} {classes : List (UInt8 → Bool)}

theorem always_readFields (bounds : ReadLimit good packet limit) (pos : Nat) (c : UInt8) (tail : List UInt8)
    (bound : limit ≤ pos + (c :: tail).length) (delimiter : isDelimiter c = true) :
    Traced.Always good (readFields packet ⟨pos, c :: tail⟩) ↔
      ¬ Unfinished scannedClasses ((c :: tail).take (limit - pos)) := by
  have separated := scannedClasses_separated
  have shape : Unfinished scannedClasses [] := headerUnfinished_append_iff.mp
    ⟨shortestHeader, shortestHeader_nulFree, by simp [Header.bytes]⟩
  have zeroRejects {cls : UInt8 → Bool} (zero : cls 0 = false) (classes : List (UInt8 → Bool)) (c : UInt8)
      (tail : List UInt8) (_ : isDelimiter c = false) (refused : decide (c ≠ 0) = false) :
      ¬ Unfinished (cls :: classes) (c :: tail) := by
    have nul : c = 0 := by simpa using refused
    exact not_unfinished (nul ▸ zero)
  have fieldRejects {keep : UInt8 → Bool} (classes : List (UInt8 → Bool)) (c : UInt8) (tail : List UInt8)
      (_ : keep c = false) (refused : isDelimiter c = false) : ¬ Unfinished (isDelimiter :: classes) (c :: tail) :=
    not_unfinished refused
  simp only [readFields, skipDelimiters, skipVersion, readInteger]
  refine reads_stage bounds separated shape (zeroRejects (by decide) _) ?_ _ pos _ bound (by simp [delimiter])
  intro _ pos c tail outside left _ bound
  refine reads_stage bounds separated.tail shape.tail (fieldRejects _) ?_ _ pos _ bound
    (by simpa [isVersionChar, outside] using left)
  intro _ pos c tail _ delimiter _ bound
  refine reads_stage bounds separated.tail.tail shape.tail.tail (zeroRejects (by decide) _) ?_ _ pos _ bound
    (by simp [delimiter])
  intro _ pos c tail outside _ _ bound
  refine reads_stage bounds separated.tail.tail.tail shape.tail.tail.tail (fieldRejects _) ?_ _ pos _ bound
    (by simp [outside])
  intro _ pos c tail _ delimiter _ bound
  refine reads_stage bounds separated.tail.tail.tail.tail shape.tail.tail.tail.tail (zeroRejects (by decide) _) ?_
    _ pos _ bound (by simp [delimiter])
  intro _ pos c tail outside _ _ bound
  refine reads_stage bounds separated.tail.tail.tail.tail.tail shape.tail.tail.tail.tail.tail (fieldRejects _) ?_
    _ pos _ bound (by simp [outside])
  intro _ pos c tail _ delimiter _ bound
  refine reads_stage bounds separated.tail.tail.tail.tail.tail.tail shape.tail.tail.tail.tail.tail.tail
    (zeroRejects (by decide) _) ?_ _ pos _ bound (by simp [delimiter])
  intro _ pos c tail outside _ _ bound
  refine reads_stage bounds separated.tail.tail.tail.tail.tail.tail.tail
    shape.tail.tail.tail.tail.tail.tail.tail (fieldRejects _) ?_ _ pos _ bound (by simp [outside])
  intro _ pos c tail _ delimiter _ bound
  refine reads_stage bounds separated.tail.tail.tail.tail.tail.tail.tail.tail
    shape.tail.tail.tail.tail.tail.tail.tail.tail (by simp [unfinished_none]) ?_ _ pos _ bound (by simp [delimiter])
  intro _ pos c tail _ _ below _
  rw [take_cons_below below, unfinished_none]
  simp

theorem foldl_readInteger (width : Nat) (digits : List UInt8) :
    ∀ result, digits.foldl (fun result c => (result * 10 + (c.toNat - 0x30)) % 2 ^ width) (result % 2 ^ width) =
      digits.foldl (fun value c => value * 10 + (c.toNat - 0x30)) result % 2 ^ width := by
  induction digits with
  | nil => intro result; rfl
  | cons c digits ih =>
    intro result
    have step : (result % 2 ^ width * 10 + (c.toNat - 0x30)) % 2 ^ width =
        (result * 10 + (c.toNat - 0x30)) % 2 ^ width := by
      simp [Nat.add_mod, Nat.mul_mod]
    rw [foldl_cons, foldl_cons, step]
    exact ih _

theorem decimal_mod (width : Nat) (digits : List UInt8) :
    digits.foldl (fun result c => (result * 10 + (c.toNat - 0x30)) % 2 ^ width) 0 = decimal digits % 2 ^ width := by
  have folded := foldl_readInteger width digits 0
  rwa [Nat.zero_mod] at folded

theorem skipDelimiters_next (pos : Nat) (rest : List UInt8) (value : Unit × Cursor) :
    (skipDelimiters packet ⟨pos, rest⟩).flow = .next value ↔
      ∃ run c tail, rest = run ++ c :: tail ∧ (∀ c ∈ run, isDelimiter c = true) ∧ BeginsInfo c ∧
        value = ((), ⟨pos + run.length, c :: tail⟩) := by
  rw [skipDelimiters, scan_next]
  constructor
  · rintro ⟨run, c, tail, split, inside, outside, left, same⟩
    exact ⟨run, c, tail, split, inside, ⟨by simpa using left, outside⟩, same⟩
  · rintro ⟨run, c, tail, split, inside, begins, same⟩
    exact ⟨run, c, tail, split, inside, begins.2, by simpa using begins.1, same⟩

theorem skipVersion_next (pos : Nat) (rest : List UInt8) (value : Unit × Cursor) :
    (skipVersion packet ⟨pos, rest⟩).flow = .next value ↔
      ∃ run c tail, rest = run ++ c :: tail ∧ (∀ c ∈ run, isVersionChar c = true) ∧
        isDelimiter c = true ∧ value = ((), ⟨pos + run.length, c :: tail⟩) := by
  rw [skipVersion, scan_next]
  constructor
  · rintro ⟨run, c, tail, split, inside, _, left, same⟩
    exact ⟨run, c, tail, split, inside, left, same⟩
  · rintro ⟨run, c, tail, split, inside, left, same⟩
    exact ⟨run, c, tail, split, inside, isDelimiter_not_versionChar c left, left, same⟩

theorem readInteger_next (width pos : Nat) (rest : List UInt8) (value : Nat × Cursor) :
    (readInteger width packet ⟨pos, rest⟩).flow = .next value ↔
      ∃ run c tail, rest = run ++ c :: tail ∧ (∀ c ∈ run, isDigit c = true) ∧
        isDelimiter c = true ∧ value = (decimal run % 2 ^ width, ⟨pos + run.length, c :: tail⟩) := by
  rw [readInteger, scan_next]
  constructor
  · rintro ⟨run, c, tail, split, inside, _, left, same⟩
    rw [decimal_mod] at same
    exact ⟨run, c, tail, split, inside, left, same⟩
  · rintro ⟨run, c, tail, split, inside, left, same⟩
    rw [← decimal_mod] at same
    exact ⟨run, c, tail, split, inside, isDelimiter_not_digit c left, left, same⟩

theorem run_nonempty {run tail rest : List UInt8} {first last : UInt8} (split : first :: tail = run ++ last :: rest)
    (differ : isDelimiter first ≠ isDelimiter last) : run ≠ [] := by
  rintro rfl
  simp only [nil_append, List.cons.injEq] at split
  exact differ (congrArg isDelimiter split.1)

theorem exists_head {cls : UInt8 → Bool} {run : List UInt8} (nonempty : run ≠ [])
    (inside : ∀ c ∈ run, cls c = true) (more : List UInt8) : ∃ c tail, run ++ more = c :: tail ∧ cls c = true := by
  cases run with
  | nil => exact absurd rfl nonempty
  | cons c run => exact ⟨c, run ++ more, rfl, inside c mem_cons_self⟩

theorem readFields_next (pos : Nat) (c : UInt8) (tail : List UInt8) (delimiter : isDelimiter c = true)
    (value : Nat × Nat × Nat × Cursor) : (readFields packet ⟨pos, c :: tail⟩).flow = .next value ↔
      ∃ header : Header, header.NulFree ∧ ∃ first rest,
        c :: tail = header.runs.flatten ++ first :: rest ∧ BeginsInfo first ∧
        value = (decimal header.disasterType % 2 ^ 8, decimal header.offsetX % 2 ^ 32,
          decimal header.offsetY % 2 ^ 32, ⟨pos + header.runs.flatten.length, first :: rest⟩) := by
  constructor
  · intro falls
    simp only [readFields, Traced.flow_bind_next] at falls
    obtain ⟨_, found, falls⟩ := falls
    obtain ⟨d1, c1, t1, split1, in1, begins1, rfl⟩ := (skipDelimiters_next _ _ _).mp found
    obtain ⟨_, found, falls⟩ := falls
    obtain ⟨version, c2, t2, split2, in2, ends2, rfl⟩ := (skipVersion_next _ _ _).mp found
    obtain ⟨_, found, falls⟩ := falls
    obtain ⟨d2, c3, t3, split3, in3, begins3, rfl⟩ := (skipDelimiters_next _ _ _).mp found
    obtain ⟨_, found, falls⟩ := falls
    obtain ⟨disasterType, c4, t4, split4, in4, ends4, rfl⟩ := (readInteger_next _ _ _ _).mp found
    obtain ⟨_, found, falls⟩ := falls
    obtain ⟨d3, c5, t5, split5, in5, begins5, rfl⟩ := (skipDelimiters_next _ _ _).mp found
    obtain ⟨_, found, falls⟩ := falls
    obtain ⟨offsetX, c6, t6, split6, in6, ends6, rfl⟩ := (readInteger_next _ _ _ _).mp found
    obtain ⟨_, found, falls⟩ := falls
    obtain ⟨d4, c7, t7, split7, in7, begins7, rfl⟩ := (skipDelimiters_next _ _ _).mp found
    obtain ⟨_, found, falls⟩ := falls
    obtain ⟨offsetY, c8, t8, split8, in8, ends8, rfl⟩ := (readInteger_next _ _ _ _).mp found
    obtain ⟨_, found, falls⟩ := falls
    obtain ⟨d5, c9, t9, split9, in9, begins9, rfl⟩ := (skipDelimiters_next _ _ _).mp found
    simp only [Traced.flow_pure, Traced.Flow.next.injEq] at falls
    -- a run is not empty, because its first character did not satisfy the end of the run before
    have shape : RunsOf scannedClasses [d1, version, d2, disasterType, d3, offsetX, d4, offsetY, d5] := by
      simp only [RunsOf, scannedClasses, List.forall₂_cons, List.Forall₂.nil, and_true]
      exact ⟨⟨run_nonempty split1 (by simp [delimiter, begins1.2]), in1⟩,
        ⟨run_nonempty split2 (by simp [begins1.2, ends2]), in2⟩,
        ⟨run_nonempty split3 (by simp [ends2, begins3.2]), in3⟩,
        ⟨run_nonempty split4 (by simp [begins3.2, ends4]), in4⟩,
        ⟨run_nonempty split5 (by simp [ends4, begins5.2]), in5⟩,
        ⟨run_nonempty split6 (by simp [begins5.2, ends6]), in6⟩,
        ⟨run_nonempty split7 (by simp [ends6, begins7.2]), in7⟩,
        ⟨run_nonempty split8 (by simp [begins7.2, ends8]), in8⟩,
        ⟨run_nonempty split9 (by simp [ends8, begins9.2]), in9⟩⟩
    obtain ⟨header, nulFree, same⟩ := runsOf_scannedClasses_iff.mp shape
    obtain ⟨h1, h2, h3, h4, h5, h6, h7, h8, h9, headerShape⟩ := header
    simp only [Header.runs, List.cons.injEq, and_true] at same
    obtain ⟨rfl, rfl, rfl, rfl, rfl, rfl, rfl, rfl, rfl⟩ := same
    refine ⟨_, nulFree, c9, t9, ?_, begins9, ?_⟩
    · simp only [Header.runs, flatten_cons, flatten_nil, append_nil,
        append_assoc, ← split9, ← split8, ← split7, ← split6, ← split5, ← split4, ← split3,
        ← split2, ← split1]
    · simp only [← falls, Header.runs, flatten_cons, flatten_nil, append_nil, length_append, Nat.add_assoc]
  · rintro ⟨header, nulFree, first, rest, split, begins, rfl⟩
    have shape := runsOf_scannedClasses_iff.mpr ⟨header, nulFree, rfl⟩
    simp only [RunsOf, scannedClasses, Header.runs, List.forall₂_cons, List.Forall₂.nil, and_true] at shape
    obtain ⟨⟨_, in1⟩, ⟨n2, in2⟩, ⟨n3, in3⟩, ⟨n4, in4⟩, ⟨n5, in5⟩, ⟨n6, in6⟩, ⟨n7, in7⟩, ⟨n8, in8⟩, ⟨n9, in9⟩⟩ := shape
    simp only [Header.runs, flatten_cons, flatten_nil, append_nil, append_assoc] at split
    obtain ⟨c8, t8, e8, k8⟩ := exists_head n9 in9 (first :: rest)
    obtain ⟨c7, t7, e7, k7⟩ := exists_head n8 in8 (c8 :: t8)
    obtain ⟨c6, t6, e6, k6⟩ := exists_head n7 in7 (c7 :: t7)
    obtain ⟨c5, t5, e5, k5⟩ := exists_head n6 in6 (c6 :: t6)
    obtain ⟨c4, t4, e4, k4⟩ := exists_head n5 in5 (c5 :: t5)
    obtain ⟨c3, t3, e3, k3⟩ := exists_head n4 in4 (c4 :: t4)
    obtain ⟨c2, t2, e2, k2⟩ := exists_head n3 in3 (c3 :: t3)
    obtain ⟨c1, t1, e1, k1⟩ := exists_head n2 in2 (c2 :: t2)
    rw [e8, e7, e6, e5, e4, e3, e2, e1] at split
    have digitBegins (c : UInt8) (digit : isDigit c = true) : BeginsInfo c :=
      ⟨isDigit_ne_zero c digit, isDigit_not_delimiter c digit⟩
    simp only [readFields, Traced.flow_bind_next]
    refine ⟨_, (skipDelimiters_next _ _ _).mpr ⟨_, c1, t1, split, in1, (isVersionChar_iff c1).mp k1, rfl⟩, ?_⟩
    refine ⟨_, (skipVersion_next _ _ _).mpr ⟨_, c2, t2, e1.symm, in2, k2, rfl⟩, ?_⟩
    refine ⟨_, (skipDelimiters_next _ _ _).mpr ⟨_, c3, t3, e2.symm, in3, digitBegins c3 k3, rfl⟩, ?_⟩
    refine ⟨_, (readInteger_next _ _ _ _).mpr ⟨_, c4, t4, e3.symm, in4, k4, rfl⟩, ?_⟩
    refine ⟨_, (skipDelimiters_next _ _ _).mpr ⟨_, c5, t5, e4.symm, in5, digitBegins c5 k5, rfl⟩, ?_⟩
    refine ⟨_, (readInteger_next _ _ _ _).mpr ⟨_, c6, t6, e5.symm, in6, k6, rfl⟩, ?_⟩
    refine ⟨_, (skipDelimiters_next _ _ _).mpr ⟨_, c7, t7, e6.symm, in7, digitBegins c7 k7, rfl⟩, ?_⟩
    refine ⟨_, (readInteger_next _ _ _ _).mpr ⟨_, c8, t8, e7.symm, in8, k8, rfl⟩, ?_⟩
    refine ⟨_, (skipDelimiters_next _ _ _).mpr ⟨_, first, rest, e8.symm, in9, begins, rfl⟩, ?_⟩
    simp only [Traced.flow_pure, Header.runs, flatten_cons, flatten_nil, append_nil, length_append, Nat.add_assoc]

theorem onlyReads_readFields (m : Cursor) :
    Traced.Always (fun event => ∃ index, event = .read packet index) (readFields packet m) := by
  simp only [readFields, skipDelimiters, skipVersion, readInteger, Traced.always_bind,
    onlyReads_scan, Traced.always_pure, implies_true, and_self]

theorem faultsOn_readFields (pos : Nat) (rest : List UInt8) (whole : pos + rest.length = limit) :
    Traced.FaultsOn (fun event => ¬ ReadsBelow limit event) (readFields packet ⟨pos, rest⟩) := by
  simp only [readFields, skipDelimiters, skipVersion, readInteger]
  iterate 8 refine faultsOn_scan_bind _ _ _ whole fun _ _ _ whole => ?_
  refine faultsOn_scan_bind _ _ _ whole fun _ _ _ _ => ?_
  exact Traced.faultsOn_pure _

end Fields

end DisasVisor.Vpn
