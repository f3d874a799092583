import DisasVisor.Vpn.MessageFields

/-!
What `handle_disasvisor_message` does with a payload, in terms of the message
format: up to where it reads, whether it displays a warning, and which one.
-/

namespace DisasVisor.Vpn

open MaximalRuns List
open Traced (emit_bind always_emit_bind faultsOn_pure faultsOn_bind faultsOn_emit always_bind always_pure
  collect_emit_bind)

variable {good : Event → Prop} {packet : Frame} {limit : Nat}

structure Announces (rest : List UInt8) (header : Header) (info : List UInt8) : Prop where
  nulFree : header.NulFree
  nonempty : info ≠ []
  begins : ∀ c ∈ info.head?, BeginsInfo c
  spelled : rest = header.bytes ++ info

def announcement (pos : Nat) (header : Header) (info : List UInt8) (len : Nat) : Warning where
  disasterType := decimal header.disasterType % 2 ^ 8
  x := decimal header.offsetX % 2 ^ 32
  y := decimal header.offsetY % 2 ^ 32
  msg := ⟨pos + header.bytes.length, info⟩
  msgLen := (len + 2 ^ 64 - header.bytes.length) % 2 ^ 64 % 2 ^ 32

theorem length_disasvisorKeyword : disasvisorKeyword.length = 10 := rfl

theorem strncmpKeyword_true (keyword : List UInt8) :
    ∀ pos rest, (strncmpKeyword packet keyword pos rest).flow = .next true ↔ keyword <+: rest := by
  induction keyword with
  | nil => simp [strncmpKeyword]
  | cons k keyword ih =>
    intro pos rest
    cases rest with
    | nil => simp [strncmpKeyword, emit_bind]
    | cons c rest =>
      by_cases same : c = k
      · simp [strncmpKeyword, emit_bind, same, ih]
      · simp [strncmpKeyword, same, Ne.symm same]

theorem always_strncmpKeyword (bounds : ReadLimit good packet limit) (keyword : List UInt8) :
    ∀ pos rest, limit ≤ pos + rest.length →
      (Traced.Always good (strncmpKeyword packet keyword pos rest) ↔
        keyword <+: rest.take (limit - pos) ∨ ¬ rest.take (limit - pos) <+: keyword) := by
  induction keyword with
  | nil => simp [strncmpKeyword]
  | cons k keyword ih =>
    intro pos rest bound
    by_cases below : pos < limit
    · cases rest with
      | nil =>
        simp only [length_nil] at bound
        omega
      | cons c rest =>
        simp only [length_cons] at bound
        have shorter : limit - pos - 1 = limit - (pos + 1) := by omega
        simp only [strncmpKeyword, always_emit_bind, bounds.read, below, true_and,
          take_cons_below below, cons_prefix_cons, shorter]
        by_cases same : c = k
        · simp only [same, if_true, true_and, ih (pos + 1) rest (by omega)]
        · simp [same]
    · have none : limit - pos = 0 := by omega
      cases rest with
      | nil => simp [strncmpKeyword, bounds.read, below]
      | cons c rest => simp [strncmpKeyword, bounds.read, below, none]

theorem onlyReads_strncmpKeyword (keyword : List UInt8) :
    ∀ pos rest, Traced.Always (fun event => ∃ index, event = .read packet index)
      (strncmpKeyword packet keyword pos rest) := by
  induction keyword with
  | nil => simp [strncmpKeyword]
  | cons k keyword ih =>
    intro pos rest
    cases rest with
    | nil => simp [strncmpKeyword]
    | cons c rest =>
      simp only [strncmpKeyword, always_emit_bind]
      refine ⟨⟨pos, rfl⟩, ?_⟩
      split
      · exact ih _ _
      · simp

theorem faultsOn_strncmpKeyword (keyword : List UInt8) :
    ∀ pos rest, pos + rest.length = limit →
      Traced.FaultsOn (fun event => ¬ ReadsBelow limit event) (strncmpKeyword packet keyword pos rest) := by
  induction keyword with
  | nil => exact fun _ _ _ => faultsOn_pure _
  | cons k keyword ih =>
    intro pos rest whole
    cases rest with
    | nil =>
      simp only [length_nil, Nat.add_zero] at whole
      simp [strncmpKeyword, Traced.FaultsOn, emit_bind, ReadsBelow, whole]
    | cons c rest =>
      simp only [length_cons] at whole
      apply faultsOn_bind
      · exact faultsOn_emit (by simp only [ReadsBelow]; omega)
      · intro _ _
        split
        · exact ih _ _ (by omega)
        · exact faultsOn_pure _

theorem not_headerUnfinished_take (rest : List UInt8) (count : Nat) :
    ¬ HeaderUnfinished (rest.take count) ↔
      (disasvisorKeyword <+: rest.take count ∨ ¬ rest.take count <+: disasvisorKeyword) ∧
      (disasvisorKeyword <+: rest → ¬ Unfinished scannedClasses ((rest.drop 10).take (count - 10))) := by
  by_cases spelled : disasvisorKeyword <+: rest.take count
  · obtain ⟨more, whole⟩ := spelled
    have behind : (rest.drop 10).take (count - 10) = more := by
      rw [← drop_take, ← whole]
      rfl
    have inRest : disasvisorKeyword <+: rest := List.IsPrefix.trans ⟨more, whole⟩ ( take_prefix _ _)
    rw [← whole, headerUnfinished_append_iff, behind]
    simp [inRest]
  · by_cases inside : rest.take count <+: disasvisorKeyword
    · have unfinished : HeaderUnfinished (rest.take count) :=
        ⟨shortestHeader, shortestHeader_nulFree, inside.trans (prefix_append _ _)⟩
      simp [spelled, inside, unfinished]
    · have finished : ¬ HeaderUnfinished (rest.take count) := by
        rintro ⟨header, -, more⟩
        have either := prefix_or_prefix_of_prefix more (prefix_append disasvisorKeyword _)
        exact either.elim inside spelled
      have notInRest : ¬ disasvisorKeyword <+: rest := by
        intro inRest
        have either := prefix_or_prefix_of_prefix inRest ( take_prefix count rest)
        exact either.elim spelled inside
      simp [spelled, inside, finished, notInRest]

theorem always_displayWarning (warning : Warning) (bounds : ReadLimit good packet limit)
    (bound : limit ≤ warning.msg.pos + warning.msg.rest.length) (inside : warning.msg.pos ≤ limit) :
    Traced.Always good (displayWarning packet warning) ↔
      good (.displayWarning packet warning) ∧
      (warning.disasterType = 1 ∨ warning.disasterType = 2 →
        warning.msg.pos + warning.msgLen ≤ limit ∨
        Vga.maxNrowsInDialog ≤ Vga.rowAfter ⟨0, 0⟩ (warning.msg.rest.take (limit - warning.msg.pos))) := by
  have events : (fun event => good (vgaEvent packet warning.msg event)) = Vga.ReadsBelow (limit - warning.msg.pos) := by
    funext event
    cases event with
    | read nth =>
      simp only [vgaEvent, bounds.read, Vga.ReadsBelow, eq_iff_iff]
      omega
    | storedPicture number x y => simp only [vgaEvent, bounds.storedPicture, Vga.ReadsBelow]
    | storedLetter asciiCode x y => simp only [vgaEvent, bounds.storedLetter, Vga.ReadsBelow]
  have drawn := Vga.always_vgaDisplayDisasterWarning (limit - warning.msg.pos)
    warning.disasterType warning.x warning.y warning.msg.rest warning.msgLen (by omega)
  have slice : warning.msgLen ≤ limit - warning.msg.pos ↔ warning.msg.pos + warning.msgLen ≤ limit := by omega
  rw [slice] at drawn
  rw [displayWarning, always_emit_bind, always_bind, Traced.always_relabel, events, drawn]
  simp only [always_pure, implies_true, and_true]

theorem always_afterKeyword (bounds : ReadLimit good packet limit)
    (next : Nat × Nat × Nat × Cursor → Traced Event Unit) (pos : Nat) (rest : List UInt8)
    (bound : limit ≤ pos + rest.length) :
    Traced.Always good (deref packet ⟨pos, rest⟩ >>= fun c =>
        if isDelimiter c then readFields packet ⟨pos, rest⟩ >>= next else Traced.returned) ↔
      ¬ Unfinished scannedClasses (rest.take (limit - pos)) ∧
      ∀ header : Header, header.NulFree → ∀ first tail,
        rest = header.runs.flatten ++ first :: tail → BeginsInfo first →
        Traced.Always good (next (decimal header.disasterType % 2 ^ 8,
          decimal header.offsetX % 2 ^ 32, decimal header.offsetY % 2 ^ 32,
          ⟨pos + header.runs.flatten.length, first :: tail⟩)) := by
  have unfinished : Unfinished scannedClasses [] := headerUnfinished_append_iff.mp
    ⟨shortestHeader, shortestHeader_nulFree, by simp [Header.bytes]⟩
  cases rest with
  | nil =>
    have below : ¬ pos < limit := by
      simp only [length_nil] at bound
      omega
    simp [deref, bounds.read, below, unfinished]
  | cons c tail =>
    have emitted : deref packet ⟨pos, c :: tail⟩ = (do
        Traced.emit (.read packet pos)
        pure c) := rfl
    simp only [emitted, bind_assoc, always_emit_bind, bounds.read, pure_bind]
    by_cases delimiter : isDelimiter c = true
    · rw [if_pos delimiter, always_bind, always_readFields bounds pos c tail bound delimiter]
      simp only [readFields_next pos c tail delimiter]
      constructor
      · rintro ⟨-, closed, continues⟩
        exact ⟨closed, fun header nulFree first rest split begins =>
          continues _ ⟨header, nulFree, first, rest, split, begins, rfl⟩⟩
      · rintro ⟨closed, continues⟩
        refine ⟨?_, closed, ?_⟩
        · by_contra above
          have none : limit - pos = 0 := by omega
          rw [none, take_zero] at closed
          exact closed unfinished
        · rintro value ⟨header, nulFree, first, rest, split, begins, rfl⟩
          exact continues header nulFree first rest split begins
    · have outside : isDelimiter c = false := by simpa using delimiter
      have notUnfinished (word : List UInt8) : ¬ Unfinished scannedClasses (c :: word) := not_unfinished outside
      have noHeader (header : Header) (nulFree : header.NulFree) (first : UInt8)
          (rest : List UInt8) : c :: tail ≠ header.runs.flatten ++ first :: rest := by
        intro split
        have shape := runsOf_scannedClasses_iff.mpr ⟨header, nulFree, rfl⟩
        cases spelled : header.runs.flatten with
        | nil =>
          obtain ⟨d1, runs, same, nonempty, -⟩ := shape.cons_inv
          rw [same, flatten_cons, append_eq_nil_iff] at spelled
          exact nonempty spelled.1
        | cons head word =>
          rw [spelled, cons_append, List.cons.injEq] at split
          apply notUnfinished word
          rw [split.1, ← spelled]
          exact ⟨header.runs, shape, prefix_rfl⟩
      rw [if_neg delimiter]
      constructor
      · rintro ⟨below, -⟩
        rw [take_cons_below below]
        exact ⟨notUnfinished _, fun header nulFree first rest split =>
          absurd split (noHeader header nulFree first rest)⟩
      · rintro ⟨closed, -⟩
        refine ⟨?_, Traced.always_returned⟩
        by_contra above
        have none : limit - pos = 0 := by omega
        rw [none, take_zero] at closed
        exact closed unfinished

theorem displayFields_eq (pos : Nat) (rest : List UInt8) (header : Header) (info : List UInt8) (len : Nat) :
    displayFields packet ⟨pos, rest⟩ len
      (decimal header.disasterType % 2 ^ 8, decimal header.offsetX % 2 ^ 32,
        decimal header.offsetY % 2 ^ 32, ⟨pos + 10 + header.runs.flatten.length, info⟩) = (do
      Traced.emit (.subtract len header.bytes.length)
      displayWarning packet (announcement pos header info len)) := by
  have length : header.bytes.length = 10 + header.runs.flatten.length := by
    rw [Header.bytes, length_append, length_disasvisorKeyword]
  have behind : pos + 10 + header.runs.flatten.length = pos + header.bytes.length := by omega
  simp only [displayFields, behind, Nat.add_sub_cancel_left, announcement]

theorem announces_iff {rest info : List UInt8} {header : Header} (nulFree : header.NulFree) :
    Announces rest header info ↔
      disasvisorKeyword <+: rest ∧ ∃ first tail, info = first :: tail ∧ BeginsInfo first ∧
        rest.drop 10 = header.runs.flatten ++ first :: tail := by
  constructor
  · rintro ⟨-, nonempty, begins, rfl⟩
    cases info with
    | nil => exact absurd rfl nonempty
    | cons first tail =>
      refine ⟨⟨header.runs.flatten ++ first :: tail, ?_⟩, first, tail, rfl, begins first rfl, ?_⟩
      · rw [Header.bytes, append_assoc]
      · rw [Header.bytes, append_assoc]
        rfl
  · rintro ⟨⟨more, rfl⟩, first, tail, rfl, begins, split⟩
    refine ⟨nulFree, cons_ne_nil _ _, ?_, ?_⟩
    · intro c member
      rw [List.head?_cons, Option.mem_def, Option.some.injEq] at member
      rwa [← member]
    · have dropped : (disasvisorKeyword ++ more).drop 10 = more := rfl
      rw [Header.bytes, append_assoc, ← split, dropped]

theorem always_handleDisasvisorMessage (bounds : ReadLimit good packet limit) (pos : Nat)
    (rest : List UInt8) (len : Nat) (bound : limit ≤ pos + rest.length) :
    Traced.Always good (handleDisasvisorMessage packet ⟨pos, rest⟩ len) ↔
      good (.handleMessage packet pos len) ∧
      (10 ≤ len → ¬ HeaderUnfinished (rest.take (limit - pos)) ∧
        ∀ header info, Announces rest header info →
          good (.subtract len header.bytes.length) ∧
          Traced.Always good (displayWarning packet (announcement pos header info len))) := by
  rw [handleDisasvisorMessage, always_emit_bind, length_disasvisorKeyword]
  by_cases long : 10 ≤ len
  · rw [if_pos long, always_bind, always_strncmpKeyword bounds _ pos rest bound,
      not_headerUnfinished_take]
    simp only [long, forall_const]
    by_cases spelled : disasvisorKeyword <+: rest
    · have equal : (strncmpKeyword packet disasvisorKeyword pos rest).flow = .next true :=
        (strncmpKeyword_true _ _ _).mpr spelled
      have behind := always_afterKeyword bounds (displayFields packet ⟨pos, rest⟩ len) (pos + 10)
        (rest.drop 10) (by rw [length_drop]; omega)
      have advanced : Cursor.advance ⟨pos, rest⟩ 10 = ⟨pos + 10, rest.drop 10⟩ := rfl
      simp only [equal, Traced.Flow.next.injEq, forall_eq', if_true, advanced, behind, Nat.sub_add_eq,
        displayFields_eq, always_emit_bind, spelled, forall_const]
      constructor
      · rintro ⟨handled, decided, finished, displayed⟩
        refine ⟨handled, ⟨decided, finished⟩, ?_⟩
        intro header info announced
        obtain ⟨-, first, tail, rfl, begins, split⟩ := (announces_iff announced.nulFree).mp announced
        exact displayed header announced.nulFree first tail split begins
      · rintro ⟨handled, ⟨decided, finished⟩, displayed⟩
        refine ⟨handled, decided, finished, ?_⟩
        intro header nulFree first tail split begins
        exact displayed header _ ((announces_iff nulFree).mpr ⟨spelled, first, tail, rfl, begins, split⟩)
    · have differ (value : Bool) (falls : (strncmpKeyword packet disasvisorKeyword pos rest).flow =
          .next value) : value = false := by
        cases value with
        | false => rfl
        | true => exact absurd ((strncmpKeyword_true _ _ _).mp falls) spelled
      constructor
      · rintro ⟨handled, decided, -⟩
        refine ⟨handled, ⟨decided, fun inRest => absurd inRest spelled⟩, ?_⟩
        intro header info announced
        exact absurd ((announces_iff announced.nulFree).mp announced).1 spelled
      · rintro ⟨handled, ⟨decided, -⟩, -⟩
        refine ⟨handled, decided, ?_⟩
        intro value falls
        rw [differ value falls]
        exact always_pure ()
  · simp [long]

theorem OnlyReads.silent {α : Type} {run : Traced Event α}
    (reads : Traced.Always (fun event => ∃ index, event = .read packet index) run) :
    Traced.Always (fun event => displayedWarning event = none) run := by
  refine reads.mono ?_
  rintro _ ⟨index, rfl⟩
  rfl

theorem onlyReads_deref (m : Cursor) :
    Traced.Always (fun event => ∃ index, event = .read packet index) (deref packet m) := by
  unfold deref
  split <;> simp

theorem collect_displayWarning (warning : Warning) :
    (displayWarning packet warning).collect displayedWarning = [warning] := by
  have drawn : (Traced.relabel (vgaEvent packet warning.msg) (Vga.vgaDisplayDisasterWarning
      warning.disasterType warning.x warning.y warning.msg.rest warning.msgLen)).collect
        displayedWarning = [] := by
    rw [Traced.collect_relabel, Traced.collect_eq_nil_iff]
    intro event _
    cases event <;> rfl
  rw [displayWarning, collect_emit_bind, Traced.collect_bind_silent (fun _ => Traced.collect_pure _), drawn]
  rfl

theorem collect_handleDisasvisorMessage {rest info : List UInt8} {header : Header} (pos len : Nat)
    (long : 10 ≤ len) (announced : Announces rest header info) :
    (handleDisasvisorMessage packet ⟨pos, rest⟩ len).collect displayedWarning = [announcement pos header info len] := by
  obtain ⟨spelled, first, tail, rfl, begins, split⟩ := (announces_iff announced.nulFree).mp announced
  have equal : (strncmpKeyword packet disasvisorKeyword pos rest).flow = .next true :=
    (strncmpKeyword_true _ _ _).mpr spelled
  have keywordSilent : (strncmpKeyword packet disasvisorKeyword pos rest).collect displayedWarning = [] :=
    Traced.collect_eq_nil_iff.mpr (OnlyReads.silent (onlyReads_strncmpKeyword _ _ _))
  obtain ⟨c, behind, head, delimiter⟩ : ∃ c behind, rest.drop 10 = c :: behind ∧ isDelimiter c = true := by
    obtain ⟨d1, runs, same, nonempty, inside, -⟩ :=
      (runsOf_scannedClasses_iff.mpr ⟨header, announced.nulFree, rfl⟩).cons_inv
    rw [split, same, flatten_cons, append_assoc]
    exact exists_head nonempty inside _
  have fields : (readFields packet ⟨pos + 10, c :: behind⟩).flow = .next
      (decimal header.disasterType % 2 ^ 8, decimal header.offsetX % 2 ^ 32,
        decimal header.offsetY % 2 ^ 32, ⟨pos + 10 + header.runs.flatten.length, first :: tail⟩) :=
    (readFields_next _ c behind delimiter _).mpr ⟨header, announced.nulFree, first, tail, head ▸ split, begins, rfl⟩
  have fieldsSilent : (readFields packet ⟨pos + 10, c :: behind⟩).collect displayedWarning = [] :=
    Traced.collect_eq_nil_iff.mpr (OnlyReads.silent (onlyReads_readFields _))
  have advanced : Cursor.advance ⟨pos, rest⟩ 10 = ⟨pos + 10, rest.drop 10⟩ := rfl
  have derefed : deref packet ⟨pos + 10, c :: behind⟩ = (do
      Traced.emit (.read packet (pos + 10))
      pure c) := rfl
  rw [handleDisasvisorMessage, collect_emit_bind, length_disasvisorKeyword, if_pos long,
    Traced.collect_bind_next equal, keywordSilent, if_pos rfl]
  simp only [advanced, head, derefed, bind_assoc, collect_emit_bind, pure_bind, delimiter,
    if_true, Traced.collect_bind_next fields, fieldsSilent, displayFields_eq,
    collect_displayWarning]
  rfl

theorem silent_handleDisasvisorMessage {rest : List UInt8} (pos len : Nat)
    (nothing : 10 ≤ len → ∀ header info, ¬ Announces rest header info) :
    Traced.Always (fun event => displayedWarning event = none) (handleDisasvisorMessage packet ⟨pos, rest⟩ len) := by
  rw [handleDisasvisorMessage, always_emit_bind, length_disasvisorKeyword]
  refine ⟨rfl, ?_⟩
  by_cases long : 10 ≤ len
  · rw [if_pos long, always_bind]
    refine ⟨OnlyReads.silent (onlyReads_strncmpKeyword _ _ _), ?_⟩
    intro same falls
    cases same with
    | false => simp
    | true =>
      have spelled := (strncmpKeyword_true _ _ _).mp falls
      rw [if_pos rfl, always_bind]
      refine ⟨OnlyReads.silent (onlyReads_deref _), ?_⟩
      intro c found
      split
      · rename_i delimiter
        rw [always_bind]
        refine ⟨OnlyReads.silent (onlyReads_readFields _), ?_⟩
        intro fields reached
        have advanced : Cursor.advance ⟨pos, rest⟩ 10 = ⟨pos + 10, rest.drop 10⟩ := rfl
        rw [advanced] at found reached
        cases behind : rest.drop 10 with
        | nil => simp [deref, behind, emit_bind] at found
        | cons c' tail =>
          rw [behind] at found reached
          have same : c' = c := by simpa [deref, emit_bind] using found
          rw [← same] at delimiter
          obtain ⟨header, nulFree, first, info, split, begins, -⟩ := (readFields_next _ _ _ delimiter _).mp reached
          exact absurd ((announces_iff nulFree).mpr
            ⟨spelled, first, info, rfl, begins, behind.trans split⟩) (nothing long _ _)
      · simp
  · simp [long]

theorem faultsOn_displayWarning (warning : Warning) (whole : warning.msg.pos + warning.msg.rest.length = limit) :
    Traced.FaultsOn (fun event => ¬ ReadsBelow limit event) (displayWarning packet warning) := by
  apply faultsOn_bind
  · exact faultsOn_emit (by simp [ReadsBelow])
  intro _ _
  apply faultsOn_bind
  · have drawn := Vga.faultsOn_vgaDisplayDisasterWarning warning.disasterType warning.x warning.y
      warning.msg.rest warning.msgLen
    have events (event : Vga.Event) : ReadsBelow limit (vgaEvent packet warning.msg event) ↔
        Vga.ReadsBelow warning.msg.rest.length event := by
      cases event with
      | read nth =>
        simp only [vgaEvent, ReadsBelow, Vga.ReadsBelow]
        omega
      | storedPicture number x y => exact Iff.rfl
      | storedLetter asciiCode x y => exact Iff.rfl
    simpa [Traced.FaultsOn, events] using drawn
  · exact fun _ _ => faultsOn_pure _

theorem faultsOn_handleDisasvisorMessage (pos : Nat) (rest : List UInt8) (len : Nat)
    (whole : pos + rest.length = limit) :
    Traced.FaultsOn (fun event => ¬ ReadsBelow limit event) (handleDisasvisorMessage packet ⟨pos, rest⟩ len) := by
  apply faultsOn_bind
  · exact faultsOn_emit (by simp [ReadsBelow])
  intro _ _
  split
  · apply faultsOn_bind (faultsOn_strncmpKeyword _ pos rest whole)
    intro same falls
    cases same with
    | false => exact faultsOn_pure _
    | true =>
      have spelled := (strncmpKeyword_true _ _ _).mp falls
      have long : 10 ≤ rest.length := spelled.length_le
      have whole' : pos + 10 + (rest.drop 10).length = limit := by
        rw [length_drop]
        omega
      have advanced : Cursor.advance ⟨pos, rest⟩ 10 = ⟨pos + 10, rest.drop 10⟩ := rfl
      rw [if_pos rfl, length_disasvisorKeyword, advanced]
      cases behind : rest.drop 10 with
      | nil =>
        rw [behind] at whole'
        simp only [length_nil, Nat.add_zero] at whole'
        simp [deref, Traced.FaultsOn, emit_bind, Traced.bind_fault, ReadsBelow, whole']
      | cons c tail =>
        rw [behind] at whole'
        have emitted : deref packet ⟨pos + 10, c :: tail⟩ = (do
            Traced.emit (.read packet (pos + 10))
            pure c) := rfl
        dsimp only
        rw [emitted, bind_assoc]
        apply faultsOn_bind
        · simp only [length_cons] at whole'
          exact faultsOn_emit (by simp only [ReadsBelow]; omega)
        intro _ _
        rw [pure_bind]
        by_cases delimiter : isDelimiter c = true
        · rw [if_pos delimiter]
          apply faultsOn_bind (faultsOn_readFields _ _ whole')
          intro fields reached
          obtain ⟨header, -, first, info, split, -, rfl⟩ := (readFields_next _ _ _ delimiter _).mp reached
          rw [split, length_append] at whole'
          simp only [displayFields]
          apply faultsOn_bind
          · exact faultsOn_emit (by simp [ReadsBelow])
          · intro _ _
            exact faultsOn_displayWarning _ (by dsimp only; omega)
        · rw [if_neg delimiter]
          exact Traced.faultsOn_returned
  · exact faultsOn_pure _

end DisasVisor.Vpn
