import DisasVisor.Vpn.IkePackets

/-!
A grammar of lists of IKE payloads says which messages are read, and in which of them a list of a payload
is left out of the tree.
-/

namespace DisasVisor.Vpn.Ike

open List
open ByteOrder (getD_take)
open Option (some.inj some_ne_none)

variable {b extra : List UInt8} {type : UInt8}

mutual

def Complete : Payload → Prop
  | .sa payloadList => CompleteLists payloadList
  | .proposal _ _ _ payloadList => CompleteLists payloadList
  | .transform _ _ valueList => valueList.isSome
  | _ => True

def CompleteLists : Option (List Payload) → Prop
  | none => False
  | some o => AllComplete o

def AllComplete : List Payload → Prop
  | [] => True
  | p :: rest => Complete p ∧ AllComplete rest

end

inductive Values : List UInt8 → Prop
  | nil : Values []
  | long {b : List UInt8} : 4 ≤ b.length → b.getD 0 0 = 0 → 4 + (get16 b 2).toNat ≤ b.length →
      Values (b.drop (4 + (get16 b 2).toNat)) → Values b
  | short {b : List UInt8} : 4 ≤ b.length → b.getD 0 0 ≠ 0 → Values (b.drop 4) → Values b

mutual

/-- Payloads that follow each other up to one that has no next one, each in its size; what `strict` adds is
that the lists in them are well formed. -/
inductive Chain (strict : Bool) : UInt8 → List UInt8 → Prop
  | done (b : List UInt8) : Chain strict 0 b
  | next {type : UInt8} {b : List UInt8} : type ≠ 0 → 4 ≤ b.length → 4 ≤ (get16 b 2).toNat →
      (get16 b 2).toNat ≤ b.length → Body strict type ((b.drop 4).take ((get16 b 2).toNat - 4)) →
      Chain strict (b.getD 0 0) ((b.drop 4).drop ((get16 b 2).toNat - 4)) → Chain strict type b

inductive Body (strict : Bool) : UInt8 → List UInt8 → Prop
  | sa {b : List UInt8} : 8 ≤ b.length → get32 b 0 = 1 → get32 b 4 = 1 →
      (strict = true → Chain strict 2 (b.drop 8)) → Body strict 1 b
  | proposal {b : List UInt8} : 4 ≤ b.length → 4 + (b.getD 2 0).toNat ≤ b.length →
      (strict = true → Chain strict 3 (b.drop (4 + (b.getD 2 0).toNat))) → Body strict 2 b
  | transform {b : List UInt8} : 4 ≤ b.length → (strict = true → Values (b.drop 4)) → Body strict 3 b
  | id {b : List UInt8} : 4 ≤ b.length → Body strict 5 b
  | cert {b : List UInt8} : 1 ≤ b.length → Body strict 6 b
  | certRequest {b : List UInt8} : 1 ≤ b.length → Body strict 7 b
  | notice {b : List UInt8} : 8 ≤ b.length → get32 b 0 = 1 → 8 + (b.getD 5 0).toNat ≤ b.length → Body strict 11 b
  | delete {b : List UInt8} : 8 ≤ b.length → get32 b 0 = 1 →
      8 + (get16 b 6).toNat * (b.getD 5 0).toNat ≤ b.length → Body strict 12 b
  | data {type : UInt8} {b : List UInt8} : type ∉ ([1, 2, 3, 5, 6, 7, 11, 12] : List UInt8) → Body strict type b

end

theorem cons_some {later : Option (Option (List TransformValue))} {v : TransformValue} :
    (∃ o, (do let later ← later; some (later.map fun o => v :: o)) = some (some o)) ↔
      ∃ o, later = some (some o) := by
  cases later with
  | none => simp
  | some r => cases r with
    | none => simp
    | some o => simp

theorem valueLoop_false (fuel : ℕ) : ∀ b, ¬ ∃ o, valueLoop fuel false b = some (some o) := by
  induction fuel with
  | zero =>
    intro b
    simp [valueLoop]
  | succ fuel ih =>
    intro b
    rcases b with _ | ⟨afBit, _ | ⟨type, b⟩⟩
    · simp [valueLoop]
    · simp [valueLoop]
    · rw [valueLoop, Bool.false_and]
      split
      · split
        · simp
        · rw [cons_some]
          exact ih _
      · rw [cons_some]
        exact ih _

theorem valueLoop_values (fuel : ℕ) : ∀ b, b.length < fuel →
    ((∃ o, valueLoop fuel true b = some (some o)) ↔ Values b) := by
  induction fuel with
  | zero =>
    intro b below
    omega
  | succ fuel ih =>
    intro b below
    match b with
    | [] => exact ⟨fun _ => .nil, fun _ => ⟨[], rfl⟩⟩
    | [x] =>
      constructor
      · simp [valueLoop]
      · intro values
        cases values with
        | long four => simp at four
        | short four => simp at four
    | afBit :: type :: b =>
      have size : get16 (afBit :: type :: b) 2 = get16 b 0 := rfl
      rw [length_cons, length_cons] at below
      rw [valueLoop, Bool.true_and]
      by_cases two : 2 ≤ b.length
      · rw [decide_eq_true two]
        by_cases variable' : afBit = 0
        · rw [if_pos variable']
          by_cases none' : (b.drop 2).length < (get16 b 0).toNat
          · rw [if_pos none']
            rw [length_drop] at none'
            constructor
            · simp
            · intro values
              cases values with
              | long _ _ inside =>
                rw [size, length_cons, length_cons] at inside
                omega
              | short _ fixed => exact absurd variable' fixed
          · rw [if_neg none', cons_some, ih _ (by rw [length_drop, length_drop]; omega)]
            rw [length_drop] at none'
            have rest : (b.drop 2).drop (get16 b 0).toNat = (afBit :: type :: b).drop (4 + (get16 b 0).toNat) := by
              rw [drop_drop, show 4 + (get16 b 0).toNat = 2 + (get16 b 0).toNat + 1 + 1 by omega,
                drop_succ_cons, drop_succ_cons]
            rw [rest]
            constructor
            · intro later
              refine .long ?_ variable' ?_ later
              · rw [length_cons, length_cons]
                omega
              · rw [size, length_cons, length_cons]
                omega
            · intro values
              cases values with
              | long _ _ _ later => exact later
              | short _ fixed => exact absurd variable' fixed
        · rw [if_neg variable', cons_some, ih _ (by rw [length_drop]; omega)]
          constructor
          · intro later
            refine .short ?_ variable' later
            rw [length_cons, length_cons]
            omega
          · intro values
            cases values with
            | long _ zero => exact absurd zero variable'
            | short _ _ later => exact later
      · rw [decide_eq_false two]
        constructor
        · intro loops
          exfalso
          split at loops
          · split at loops
            · simp at loops
            · exact valueLoop_false _ _ (cons_some.mp loops)
          · exact valueLoop_false _ _ (cons_some.mp loops)
        · intro values
          exfalso
          cases values with
          | long four =>
            rw [length_cons, length_cons] at four
            omega
          | short four =>
            rw [length_cons, length_cons] at four
            omega

theorem values_isSome (b : List UInt8) : (values b).isSome ↔ Values b := by
  rw [← valueLoop_values (b.length + 1) b (Nat.lt_succ_self _), Option.isSome_iff_exists]
  have is := parseTransformValueList_eq b
  unfold parseTransformValueList at is
  rw [is]
  exact ⟨fun ⟨o, same⟩ => ⟨o, congrArg some same⟩, fun ⟨o, same⟩ => ⟨o, some.inj same⟩⟩

theorem spiLoop_some (spiSize numSpi : ℕ) : ∀ b : List UInt8,
    (∃ o, spiLoop spiSize numSpi b = some o) ↔ numSpi * spiSize ≤ b.length := by
  induction numSpi with
  | zero =>
    intro b
    rw [Nat.zero_mul]
    exact ⟨fun _ => Nat.zero_le _, fun _ => ⟨[], rfl⟩⟩
  | succ numSpi ih =>
    intro b
    rw [spiLoop, Nat.succ_mul]
    by_cases short : b.length < spiSize
    · rw [if_pos short]
      constructor
      · simp
      · intro enough
        omega
    · have later := ih (b.drop spiSize)
      rw [length_drop] at later
      rw [if_neg short]
      constructor
      · rintro ⟨o, is⟩
        obtain ⟨rest, loops, _⟩ := Option.map_eq_some_iff.mp is
        have := later.mp ⟨rest, loops⟩
        omega
      · intro enough
        obtain ⟨rest, loops⟩ := later.mpr (by omega)
        rw [loops]
        exact ⟨_, rfl⟩

section Bodies

variable {strict : Bool} {lists : UInt8 → List UInt8 → Option (List Payload)}

theorem completeLists_iff {o : Option (List Payload)} : CompleteLists o ↔ ∃ l, o = some l ∧ AllComplete l := by
  cases o with
  | none => simp [CompleteLists]
  | some l => simp [CompleteLists]

theorem readSa_eq (long : 8 ≤ b.length) (doI : get32 b 0 = 1) (situation : get32 b 4 = 1) :
    readSa lists b = some (.sa (lists 2 (b.drop 8))) := by
  refine if_neg ?_
  rintro (short | other | other)
  · omega
  · exact other doI
  · exact other situation

theorem readProposal_eq (long : 4 ≤ b.length) (spi : 4 + (b.getD 2 0).toNat ≤ b.length) :
    readProposal lists b = some (.proposal (b.getD 0 0) (b.getD 1 0)
      ((b.drop 4).take (b.getD 2 0).toNat) (lists 3 (b.drop (4 + (b.getD 2 0).toNat)))) :=
  if_neg (by omega)

theorem readTransform_eq (long : 4 ≤ b.length) :
    readTransform b = some (.transform (b.getD 0 0) (b.getD 1 0) (values (b.drop 4))) :=
  if_neg (by omega)

theorem parseIdPayload_eq (long : 4 ≤ b.length) :
    parseIdPayload b = some (.id (b.getD 0 0) (b.getD 1 0) (get16 b 2) (b.drop 4)) :=
  if_neg (by omega)

theorem parseCertPayload_eq (long : 1 ≤ b.length) : parseCertPayload b = some (.cert (b.getD 0 0) (b.drop 1)) :=
  if_neg (by omega)

theorem parseCertRequestPayload_eq (long : 1 ≤ b.length) :
    parseCertRequestPayload b = some (.certRequest (b.getD 0 0) (b.drop 1)) :=
  if_neg (by omega)

theorem parseNoticePayload_eq (long : 8 ≤ b.length) (doI : get32 b 0 = 1)
    (spi : 8 + (b.getD 5 0).toNat ≤ b.length) :
    parseNoticePayload b = some (.notice (b.getD 4 0) (get16 b 6) ((b.drop 8).take (b.getD 5 0).toNat)
      ((b.drop 8).drop (b.getD 5 0).toNat)) := by
  unfold parseNoticePayload
  rw [if_neg (by omega), if_neg (show ¬ get32 b 0 ≠ seIkeSaDoiIpsec from not_not.mpr doI), if_neg (by rw [length_drop]; omega)]

theorem parseDeletePayload_eq (long : 8 ≤ b.length) (doI : get32 b 0 = 1) :
    parseDeletePayload b =
      (spiLoop (b.getD 5 0).toNat (get16 b 6).toNat (b.drop 8)).map (.delete (b.getD 4 0)) := by
  unfold parseDeletePayload
  rw [if_neg (by omega), if_neg (show ¬ get32 b 0 ≠ seIkeSaDoiIpsec from not_not.mpr doI)]

variable (nested : strict = true → ∀ type d, d.length ≤ b.length →
  ((∃ o, lists type d = some o ∧ AllComplete o) ↔ Chain strict type d))

include nested in
theorem Body.reads (body : Body strict type b) (supported : isSupported type = true) :
    ∃ p, readPayload lists type b = some p ∧ (strict = true → Complete p) := by
  cases body with
  | sa long doI situation chain =>
    refine ⟨_, readSa_eq long doI situation, fun st => completeLists_iff.mpr ?_⟩
    exact (nested st 2 _ (by rw [length_drop]; omega)).mpr (chain st)
  | proposal long spi chain =>
    refine ⟨_, readProposal_eq long spi, fun st => completeLists_iff.mpr ?_⟩
    exact (nested st 3 _ (by rw [length_drop]; omega)).mpr (chain st)
  | transform long good => exact ⟨_, readTransform_eq long, fun st => (values_isSome _).mpr (good st)⟩
  | id long => exact ⟨_, parseIdPayload_eq long, fun _ => trivial⟩
  | cert long => exact ⟨_, parseCertPayload_eq long, fun _ => trivial⟩
  | certRequest long => exact ⟨_, parseCertRequestPayload_eq long, fun _ => trivial⟩
  | notice long doI spi => exact ⟨_, parseNoticePayload_eq long doI spi, fun _ => trivial⟩
  | delete long doI spis =>
    obtain ⟨o, loops⟩ := (spiLoop_some (b.getD 5 0).toNat (get16 b 6).toNat (b.drop 8)).mpr
      (by rw [length_drop]; omega)
    refine ⟨.delete (b.getD 4 0) o, ?_, fun _ => trivial⟩
    exact (parseDeletePayload_eq long doI).trans (by rw [loops, Option.map_some])
  | data other =>
    simp only [mem_cons, not_mem_nil, or_false, not_or] at other
    unfold readPayload
    rw [if_neg other.1, if_neg other.2.1, if_neg other.2.2.1]
    split
    · exact ⟨_, rfl, fun _ => trivial⟩
    rw [if_neg other.2.2.2.1, if_neg other.2.2.2.2.1, if_neg other.2.2.2.2.2.1]
    split
    · exact ⟨_, rfl, fun _ => trivial⟩
    split
    · exact ⟨_, rfl, fun _ => trivial⟩
    split
    · exact ⟨_, rfl, fun _ => trivial⟩
    rw [if_neg other.2.2.2.2.2.2.1, if_neg other.2.2.2.2.2.2.2]
    exact ⟨_, rfl, fun _ => trivial⟩

include nested in
theorem readPayload_body {p : Payload} (reads : readPayload lists type b = some p)
    (complete : strict = true → Complete p) : Body strict type b := by
  unfold readPayload at reads
  by_cases sa : type = 1
  · subst sa
    rw [if_pos rfl] at reads
    unfold readSa at reads
    split at reads
    · cases reads
    · rename_i good
      simp only [not_or, not_not] at good
      rw [← some.inj reads] at complete
      refine .sa (Nat.not_lt.mp good.1) good.2.1 good.2.2 fun st => ?_
      exact (nested st 2 _ (by rw [length_drop]; omega)).mp (completeLists_iff.mp (complete st))
  rw [if_neg sa] at reads
  by_cases proposal : type = 2
  · subst proposal
    rw [if_pos rfl] at reads
    unfold readProposal at reads
    split at reads
    · cases reads
    · rw [← some.inj reads] at complete
      refine .proposal (by omega) (by omega) fun st => ?_
      exact (nested st 3 _ (by rw [length_drop]; omega)).mp (completeLists_iff.mp (complete st))
  rw [if_neg proposal] at reads
  by_cases transform : type = 3
  · subst transform
    rw [if_pos rfl] at reads
    unfold readTransform at reads
    split at reads
    · cases reads
    · rw [← some.inj reads] at complete
      exact .transform (by omega) fun st => (values_isSome _).mp (complete st)
  rw [if_neg transform] at reads
  by_cases id : type = 5
  · subst id
    unfold parseIdPayload at reads
    by_cases short : b.length < 4
    · simp [short] at reads
    · exact .id (by omega)
  by_cases cert : type = 6
  · subst cert
    unfold parseCertPayload at reads
    by_cases short : b.length < 1
    · simp [short] at reads
    · exact .cert (by omega)
  by_cases certRequest : type = 7
  · subst certRequest
    unfold parseCertRequestPayload at reads
    by_cases short : b.length < 1
    · simp [short] at reads
    · exact .certRequest (by omega)
  by_cases notice : type = 11
  · subst notice
    replace reads : parseNoticePayload b = some p := reads
    unfold parseNoticePayload at reads
    split at reads
    · cases reads
    · split at reads
      · cases reads
      · rename_i doI
        dsimp only at reads
        split at reads
        · cases reads
        · rename_i short
          rw [length_drop] at short
          exact .notice (by omega) (not_not.mp doI) (by omega)
  by_cases delete : type = 12
  · subst delete
    replace reads : parseDeletePayload b = some p := reads
    unfold parseDeletePayload at reads
    split at reads
    · cases reads
    · split at reads
      · cases reads
      · rename_i doI
        obtain ⟨o, loops, _⟩ := Option.map_eq_some_iff.mp reads
        have enough := (spiLoop_some _ _ _).mp ⟨o, loops⟩
        rw [length_drop] at enough
        exact .delete (by omega) (not_not.mp doI) (by omega)
  refine .data ?_
  simp only [mem_cons, not_mem_nil, or_false, not_or]
  exact ⟨sa, proposal, transform, id, cert, certRequest, notice, delete⟩

end Bodies

theorem listed_supported : ∀ type ∈ ([1, 2, 3, 5, 6, 7, 11, 12] : List UInt8), isSupported type = true :=
  forall_iff_forall_mem.mp (by decide)

theorem parseList_chain {strict : Bool} (n : ℕ) : ∀ type b, b.length ≤ n →
    ((∃ o, (parseList type b).1 = some o ∧ (strict = true → AllComplete o)) ↔ Chain strict type b) := by
  induction n using Nat.strongRecOn with
  | _ n ih =>
  intro type b most
  have never : ∀ {read : Option (List Payload)}, read = none → ¬Chain strict type b →
      ((∃ o, read = some o ∧ (strict = true → AllComplete o)) ↔ Chain strict type b) := by
    rintro _ rfl no
    exact ⟨fun ⟨o, is, _⟩ => absurd is (some_ne_none o).symm, fun chain => absurd chain no⟩
  rcases parseList_cases type b with ⟨rfl, ends⟩ | ⟨last, outside, rejects⟩ | ⟨last, short, small, none'⟩
  · rw [ends]
    exact ⟨fun _ => .done b, fun _ => ⟨[], rfl, fun _ => trivial⟩⟩
  · refine never rejects fun chain => ?_
    cases chain with
    | done => exact last rfl
    | next _ long four inside => omega
  · rw [parseList_turn, turn, if_neg last, if_neg short, if_neg small, if_neg none']
    rw [length_drop] at none'
    dsimp only
    have rest := ih (n - 1) (by omega) (b.getD 0 0) ((b.drop 4).drop ((get16 b 2).toNat - 4))
      (by rw [length_drop, length_drop]; omega)
    have nested : strict = true → ∀ type d,
        d.length ≤ ((b.drop 4).take ((get16 b 2).toNat - 4)).length →
        ((∃ o, (parseList type d).1 = some o ∧ AllComplete o) ↔ Chain strict type d) := by
      intro st type d below
      rw [length_take, length_drop] at below
      rw [← ih (n - 1) (by omega) type d (by omega)]
      simp [st]
    cases supported : isSupported type with
    | false =>
      rw [if_neg Bool.false_ne_true, rest]
      constructor
      · intro later
        refine .next last (by omega) (by omega) (by omega) (.data ?_) later
        intro member
        rw [listed_supported type member] at supported
        exact absurd supported (by decide)
      · intro chain
        cases chain with
        | done => exact absurd rfl last
        | next _ _ _ _ _ later => exact later
    | true =>
      rw [if_pos rfl]
      cases reads : readPayload (fun type d => (parseList type d).1) type
          ((b.drop 4).take ((get16 b 2).toNat - 4)) with
      | none =>
        refine never rfl fun chain => ?_
        cases chain with
        | done => exact last rfl
        | next _ _ _ _ body =>
          obtain ⟨p, is, _⟩ := body.reads nested supported
          rw [reads] at is
          cases is
      | some pay =>
        constructor
        · rintro ⟨o, is, complete⟩
          obtain ⟨later, is', rfl⟩ := Option.map_eq_some_iff.mp is
          refine .next last (by omega) (by omega) (by omega)
            (readPayload_body nested reads fun st => (complete st).1) ?_
          exact rest.mp ⟨later, is', fun st => (complete st).2⟩
        · intro chain
          cases chain with
          | done => exact absurd rfl last
          | next _ _ _ _ body later =>
            obtain ⟨p, is, complete⟩ := body.reads nested supported
            rw [reads] at is
            cases is
            obtain ⟨o, is', complete'⟩ := rest.mpr later
            refine ⟨pay :: o, ?_, fun st => ⟨complete st, complete' st⟩⟩
            dsimp only
            rw [is', Option.map_some]

structure HasPayload (decrypt : List UInt8 → Option (List UInt8 × List UInt8)) (data : List UInt8)
    (type : UInt8) (b : List UInt8) : Prop where
  header : 28 ≤ data.length
  size : 28 ≤ (get32 data 24).toNat ∧ (get32 data 24).toNat ≤ data.length
  first : data.getD 16 0 = type
  encrypted : data.getD 19 0 &&& 1 ≠ 0 → ∃ iv, decrypt ((data.drop 28).take ((get32 data 24).toNat - 28)) = some (b, iv)
  plain : data.getD 19 0 &&& 1 = 0 → (data.drop 28).take ((get32 data 24).toNat - 28) = b

def packetOf (data : List UInt8) (payloadList : Option (List Payload))
    (decryptedPayload : Option (List UInt8)) : Packet where
  initiatorCookie := fun i => data.getD i 0
  responderCookie := fun i => data.getD (8 + i) 0
  exchangeType := data.getD 18 0
  flagEncrypted := data.getD 19 0 &&& 1 ≠ 0
  flagCommit := data.getD 19 0 &&& 2 ≠ 0
  flagAuthOnly := data.getD 19 0 &&& 4 ≠ 0
  messageId := get32 data 20
  payloadList := payloadList
  decryptedPayload := decryptedPayload

section Messages

variable {decrypt : List UInt8 → Option (List UInt8 × List UInt8)} {data : List UInt8} {fuel : ℕ}

theorem seIkeParse_header (long : 28 ≤ data.length)
    (size : 28 ≤ (get32 data 24).toNat ∧ (get32 data 24).toNat ≤ data.length) :
    seIkeParse fuel decrypt data =
      if data.getD 19 0 &&& 1 ≠ 0 then
        match decrypt ((data.drop 28).take ((get32 data 24).toNat - 28)) with
        | none => some (none, none)
        | some (buf, iv) => do
            let (o, total) ← parsePayloadListEx fuel (data.getD 16 0) buf
            some (some (packetOf data o (some (buf.take (min buf.length total)))), some iv)
      else (do
        let (o, _) ← parsePayloadListEx fuel (data.getD 16 0) ((data.drop 28).take ((get32 data 24).toNat - 28))
        some (some (packetOf data o (some ((data.drop 28).take ((get32 data 24).toNat - 28)))), none)) := by
  have cookie : ∀ i : Fin 8, (data.take 28).getD i 0 = data.getD i 0 := by
    intro i
    exact getD_take _ (by omega)
  have cookie' : ∀ i : Fin 8, (data.take 28).getD (8 + i) 0 = data.getD (8 + i) 0 := by
    intro i
    exact getD_take _ (by omega)
  unfold seIkeParse
  rw [if_neg (by omega), slice_eq (by omega), drop_zero, Option.bind_eq_bind, Option.bind_some]
  simp only [cookie, cookie', getD_take _ (show 16 < 28 by omega), getD_take _ (show 18 < 28 by omega),
    getD_take _ (show 19 < 28 by omega), get32_take (show 20 + 3 < 28 by omega),
    get32_take (show 24 + 3 < 28 by omega)]
  rw [if_neg (by omega), slice_eq (by omega), Option.bind_some]
  by_cases encrypted : data.getD 19 0 &&& 1 ≠ 0
  · rw [if_pos (decide_eq_true encrypted), if_pos encrypted]
    rfl
  · rw [if_neg (fun h => encrypted (of_decide_eq_true h)), if_neg encrypted]
    rfl

section

variable (has : HasPayload decrypt data type b)
include has

theorem seIkeParse_encrypted {iv : List UInt8} (flag : data.getD 19 0 &&& 1 ≠ 0)
    (decrypts : decrypt ((data.drop 28).take ((get32 data 24).toNat - 28)) = some (b, iv))
    (enough : b.length < fuel) :
    seIkeParse fuel decrypt data = some (some (packetOf data (parseList type b).1
      (some (b.take (min b.length (parseList type b).2)))), some iv) := by
  rw [seIkeParse_header has.header has.size, if_pos flag, decrypts, has.first]
  dsimp only
  rw [parsePayloadListEx_eq b.length fuel type b (Nat.le_refl _) enough]
  rfl

theorem seIkeParse_plain (flag : data.getD 19 0 &&& 1 = 0) (enough : b.length < fuel) :
    seIkeParse fuel decrypt data = some (some (packetOf data (parseList type b).1 (some b)), none) := by
  rw [seIkeParse_header has.header has.size, if_neg (not_not.mpr flag), has.first, has.plain flag,
    parsePayloadListEx_eq b.length fuel type b (Nat.le_refl _) enough]
  rfl

theorem HasPayload.parses :
    ∃ d iv, ∀ fuel, b.length < fuel →
      seIkeParse fuel decrypt data = some (some (packetOf data (parseList type b).1 d), iv) := by
  by_cases flag : data.getD 19 0 &&& 1 = 0
  · exact ⟨_, _, fun fuel enough => seIkeParse_plain has flag enough⟩
  · obtain ⟨iv, decrypts⟩ := has.encrypted flag
    exact ⟨_, _, fun fuel enough => seIkeParse_encrypted has flag decrypts enough⟩

end

theorem seIkeParse_rejected (none' : ¬ ∃ type b, HasPayload decrypt data type b) (fuel : ℕ) :
    seIkeParse fuel decrypt data = some (none, none) := by
  by_cases long : data.length < 28
  · unfold seIkeParse
    rw [if_pos long]
  by_cases size : data.length < (get32 data 24).toNat ∨ (get32 data 24).toNat < 28
  · unfold seIkeParse
    rw [if_neg long, slice_eq (by omega), drop_zero, Option.bind_eq_bind, Option.bind_some]
    simp only [get32_take (show 24 + 3 < 28 by omega)]
    rw [if_pos size]
  have size' : 28 ≤ (get32 data 24).toNat ∧ (get32 data 24).toNat ≤ data.length := by omega
  rw [seIkeParse_header (by omega) size']
  by_cases flag : data.getD 19 0 &&& 1 = 0
  · exact absurd ⟨_, _, by omega, size', rfl, fun other => absurd flag other, fun _ => rfl⟩ none'
  · rw [if_pos flag]
    cases decrypts : decrypt ((data.drop 28).take ((get32 data 24).toNat - 28)) with
    | none => rfl
    | some pair =>
      refine absurd ⟨_, pair.1, by omega, size', rfl, fun _ => ⟨pair.2, decrypts⟩, ?_⟩ none'
      exact fun zero => absurd zero flag

theorem HasPayload.unique {type' : UInt8} {b' : List UInt8} (has : HasPayload decrypt data type b)
    (other : HasPayload decrypt data type' b') : type' = type ∧ b' = b := by
  refine ⟨other.first.symm.trans has.first, ?_⟩
  by_cases flag : data.getD 19 0 &&& 1 = 0
  · exact (other.plain flag).symm.trans (has.plain flag)
  · obtain ⟨iv, is⟩ := has.encrypted flag
    obtain ⟨iv', is'⟩ := other.encrypted flag
    rw [is] at is'
    exact (congrArg Prod.fst (some.inj is')).symm

theorem HasPayload.append (has : HasPayload decrypt data type b) (extra : List UInt8) :
    HasPayload decrypt (data ++ extra) type b := by
  have front : ∀ i, i < 28 → (data ++ extra).getD i 0 = data.getD i 0 := fun i below =>
    getD_append _ _ _ _ (Nat.lt_of_lt_of_le below has.header)
  have size : get32 (data ++ extra) 24 = get32 data 24 := by
    unfold get32
    rw [front 24 (by omega), front 25 (by omega), front 26 (by omega), front 27 (by omega)]
  have payload : ((data ++ extra).drop 28).take ((get32 data 24).toNat - 28) =
      (data.drop 28).take ((get32 data 24).toNat - 28) := by
    rw [drop_append_of_le_length has.header, take_append_of_le_length (by rw [length_drop]; have := has.size; omega)]
  have bounds := has.size
  refine ⟨?_, ?_, ?_, ?_, ?_⟩
  · rw [length_append]
    omega
  · rw [size, length_append]
    omega
  · rw [front 16 (by omega)]
    exact has.first
  · rw [front 19 (by omega), size, payload]
    exact has.encrypted
  · rw [front 19 (by omega), size, payload]
    exact has.plain

theorem packetOf_append (long : 28 ≤ data.length) (extra : List UInt8) (o : Option (List Payload))
    (d : Option (List UInt8)) : packetOf (data ++ extra) o d = packetOf data o d := by
  have front : ∀ i, i < 28 → (data ++ extra).getD i 0 = data.getD i 0 := fun i below =>
    getD_append _ _ _ _ (Nat.lt_of_lt_of_le below long)
  have cookie : ∀ i : Fin 8, (data ++ extra).getD i 0 = data.getD i 0 := fun i => front i (by omega)
  have cookie' : ∀ i : Fin 8, (data ++ extra).getD (8 + i) 0 = data.getD (8 + i) 0 := fun i => front (8 + i) (by omega)
  unfold packetOf get32
  simp only [cookie, cookie', front 18 (by omega), front 19 (by omega), front 20 (by omega),
    front 21 (by omega), front 22 (by omega), front 23 (by omega)]

/-- Every message is read or refused after finitely many turns and without a read outside of it. What
follows the message, or the last payload in it, does not matter. All payloads of the tree are complete if
and only if the lists in the payloads of the message are well formed whenever the message is one of
payloads that follow each other. -/
theorem seIkeParse_safe (decrypt : List UInt8 → Option (List UInt8 × List UInt8)) (data : List UInt8) :
    ∃ r n, (∀ fuel, n < fuel → seIkeParse fuel decrypt data = some r) ∧
      (∀ p, r.1 = some p → ∀ extra fuel, n < fuel → seIkeParse fuel decrypt (data ++ extra) = some r) ∧
      (∀ p o, r.1 = some p → p.payloadList = some o → ∀ type b, HasPayload decrypt data type b →
        ∀ decrypt' data' extra, HasPayload decrypt' data' type (b ++ extra) →
          ∃ p' iv m, (∀ fuel, m < fuel → seIkeParse fuel decrypt' data' = some (some p', iv)) ∧
            p'.payloadList = some o) ∧
      ((∀ p o, r.1 = some p → p.payloadList = some o → AllComplete o) ↔
        ∀ type b, HasPayload decrypt data type b → Chain false type b → Chain true type b) := by
  by_cases payload : ∃ type b, HasPayload decrypt data type b
  · obtain ⟨type, b, has⟩ := payload
    obtain ⟨d, iv, parses⟩ := has.parses
    have complete := @parseList_chain true b.length type b (Nat.le_refl _)
    have accepted := @parseList_chain false b.length type b (Nat.le_refl _)
    refine ⟨(some (packetOf data (parseList type b).1 d), iv), b.length, parses, ?_, ?_, ?_⟩
    · intro p _ extra fuel enough
      have more := has.append extra
      by_cases flag : (data ++ extra).getD 19 0 &&& 1 = 0
      · have flag' : data.getD 19 0 &&& 1 = 0 := by rwa [getD_append _ _ _ _ (by have := has.header; omega)] at flag
        rw [seIkeParse_plain more flag enough, packetOf_append has.header, ← parses fuel enough,
          seIkeParse_plain has flag' enough]
      · have flag' : data.getD 19 0 &&& 1 ≠ 0 := by rwa [getD_append _ _ _ _ (by have := has.header; omega)] at flag
        obtain ⟨iv', decrypts⟩ := has.encrypted flag'
        obtain ⟨iv'', decrypts'⟩ := more.encrypted flag
        have size : get32 (data ++ extra) 24 = get32 data 24 := by
          have long := has.header
          unfold get32
          rw [getD_append _ _ _ _ (by omega), getD_append _ _ _ _ (by omega),
            getD_append _ _ _ _ (by omega), getD_append _ _ _ _ (by omega)]
        have same : iv'' = iv' := by
          rw [size, drop_append_of_le_length has.header, take_append_of_le_length
            (by rw [length_drop]; have := has.size; omega), decrypts] at decrypts'
          exact (congrArg Prod.snd (some.inj decrypts')).symm
        rw [seIkeParse_encrypted more flag decrypts' enough, packetOf_append has.header,
          ← parses fuel enough, seIkeParse_encrypted has flag' decrypts enough, same]
    · intro p o is list type' b' has' decrypt' data' extra more
      obtain ⟨rfl, rfl⟩ := has.unique has'
      have list : (parseList type' b').1 = some o := by
        rw [← some.inj is] at list
        exact list
      obtain ⟨d', iv', parses'⟩ := more.parses
      refine ⟨_, iv', (b' ++ extra).length, parses', ?_⟩
      change (parseList type' (b' ++ extra)).1 = some o
      rw [parseList_append b'.length type' b' (Nat.le_refl _) (by rw [list]; exact Option.some_ne_none o), list]
    · constructor
      · intro whole type' b' has' chain
        obtain ⟨rfl, rfl⟩ := has.unique has'
        obtain ⟨o, list, _⟩ := accepted.mpr chain
        exact complete.mp ⟨o, list, fun _ => whole _ o rfl list⟩
      · intro strict p o is list
        have list : (parseList type b).1 = some o := by
          rw [← some.inj is] at list
          exact list
        have chain := accepted.mp ⟨o, list, fun st => absurd st Bool.false_ne_true⟩
        obtain ⟨o', list', whole⟩ := complete.mpr (strict type b has chain)
        rw [list, Option.some.injEq] at list'
        exact list' ▸ whole rfl
  · refine ⟨(none, none), 0, fun fuel _ => seIkeParse_rejected payload fuel, ?_, ?_, ?_⟩
    · exact fun p is => absurd is (Option.some_ne_none p).symm
    · exact fun p o is => absurd is (Option.some_ne_none p).symm
    · exact ⟨fun _ type b has => absurd ⟨type, b, has⟩ payload,
        fun _ p o is => absurd is (Option.some_ne_none p).symm⟩

/-- The list of proposals of an SA payload is cut off, and the message is read without it. -/
theorem cut_off_proposals :
    ∃ p, seIkeParse 20 (fun _ => none) (List.replicate 16 0 ++ [1, 0x10, 2, 0, 0, 0, 0, 0, 0, 0, 0, 40] ++
        [0, 0, 0, 12, 0, 0, 0, 1, 0, 0, 0, 1]) = some (some p, none) ∧
      ∃ o, p.payloadList = some o ∧ ¬ AllComplete o := by
  refine ⟨_, rfl, [.sa none], rfl, ?_⟩
  exact fun complete => complete.1

end Messages

end DisasVisor.Vpn.Ike
