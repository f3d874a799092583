import DisasVisor.Vpn.EspSoundness
import DisasVisor.Vpn.IkeGrammar

/-!
`SeIkeParse` of `SeIkeBuild`: which payloads the parser reads from what is built of them, and that a message
is read as it was when all of its payloads are among these.
-/

namespace DisasVisor.Vpn.Ike

open List
open Option (some.injEq some.inj some_ne_none ite_none_left_eq_some map_eq_some_iff)

variable {b rest extra : List UInt8} {type : UInt8} {p : Payload} {o : List Payload}
  {lists : UInt8 → List UInt8 → Option (List Payload)}

/-- A count of SPIs is its own `SeEndian16`. -/
def Palindromic (count : ℕ) : Prop := (get16 (raw16 (UInt16.ofNat count)) 0).toNat = count

def SameSize (spiList : List (List UInt8)) : Prop :=
  ∀ spi ∈ spiList, spi.length = (spiList.headD []).length ∧ spi.length < 256

mutual

def Faithful : Payload → Prop
  | .sa payloadList => FaithfulLists seIkePayloadProposal payloadList
  | .proposal _ _ spi payloadList => spi.length < 256 ∧ FaithfulLists seIkePayloadTransform payloadList
  | .transform _ _ valueList => ∃ o, valueList = some o ∧ ∀ v ∈ o, v.value < 65536
  | .notice _ _ spi messageData => spi.length < 256 ∧ messageData = []
  | .delete _ spiList => Palindromic spiList.length ∧ SameSize spiList
  | _ => True

def FaithfulLists (first : UInt8) : Option (List Payload) → Prop
  | none => True
  | some o => getFirstPayloadType o = first ∧ AllFaithful o

def AllFaithful : List Payload → Prop
  | [] => True
  | p :: rest => Faithful p ∧ AllFaithful rest

end

theorem valueLoop_eq (n : ℕ) : ∀ fuel ok b, b.length ≤ n → b.length < fuel →
    valueLoop fuel ok b = valueLoop (b.length + 1) ok b := by
  induction n with
  | zero =>
    intro fuel ok b empty enough
    have is : b = [] := length_eq_zero_iff.mp (by omega)
    subst is
    obtain ⟨fuel, rfl⟩ := Nat.exists_eq_succ_of_ne_zero (Nat.ne_zero_of_lt enough)
    rfl
  | succ n ih =>
    intro fuel ok b most enough
    obtain ⟨fuel, rfl⟩ := Nat.exists_eq_succ_of_ne_zero (Nat.ne_zero_of_lt enough)
    match b with
    | [] => rfl
    | [_] => rfl
    | afBit :: type :: b =>
      rw [length_cons, length_cons] at most enough
      have same : ∀ ok' (d : List UInt8), d.length ≤ b.length →
          valueLoop fuel ok' d = valueLoop (b.length + 1 + 1) ok' d := by
        intro ok' d below
        rw [ih fuel ok' d (by omega) (by omega), ih (b.length + 1 + 1) ok' d (by omega) (by omega)]
      rw [length_cons, length_cons, valueLoop, valueLoop, same _ _ (by
        rw [length_drop, length_drop]; omega), same _ (b.drop 2) (by
        rw [length_drop]; omega)]

theorem values_cons (afBit type hi lo : UInt8) :
    values (afBit :: type :: hi :: lo :: rest) =
      if afBit = 0 then
        if rest.length < (get16 [hi, lo] 0).toNat then none
        else (values (rest.drop (get16 [hi, lo] 0).toNat)).map fun o =>
          ⟨type, longValue (rest.take (get16 [hi, lo] 0).toNat)⟩ :: o
      else (values rest).map fun o => ⟨type, (get16 [hi, lo] 0).toUInt32⟩ :: o := by
  have loops : ∀ d : List UInt8, d.length ≤ rest.length → valueLoop (rest.length + 4) true d = some (values d) := by
    intro d below
    rw [valueLoop_eq d.length _ true d (Nat.le_refl _) (by omega)]
    exact parseTransformValueList_eq d
  have size : get16 (hi :: lo :: rest) 0 = get16 [hi, lo] 0 := rfl
  have whole := parseTransformValueList_eq (afBit :: type :: hi :: lo :: rest)
  apply some.inj
  rw [← whole]
  unfold parseTransformValueList
  rw [length_cons, length_cons, length_cons, length_cons, valueLoop, size,
    drop_succ_cons, drop_succ_cons, drop_zero, Bool.true_and,
    decide_eq_true (by rw [length_cons, length_cons]; omega), loops rest (Nat.le_refl _),
    loops _ (by rw [length_drop]; omega)]
  split
  · split
    · rfl
    · rfl
  · rfl

theorem values_small {v : TransformValue} (small : v.value < 65536) :
    values (buildTransformValue v ++ rest) = (values rest).map fun o => v :: o := by
  have value : v.value.toUInt16.toUInt32 = v.value := by
    have bound : v.value.toNat < 65536 := small
    apply UInt32.toNat_inj.mp
    rw [UInt16.toNat_toUInt32, UInt32.toNat_toUInt16]
    omega
  unfold buildTransformValue
  rw [if_neg (UInt32.not_le.mpr small)]
  change values (0x80 :: v.type :: (v.value.toUInt16 >>> 8).toUInt8 :: v.value.toUInt16.toUInt8 :: rest) = _
  have joined : get16 [(v.value.toUInt16 >>> 8).toUInt8, v.value.toUInt16.toUInt8] 0 =
      v.value.toUInt16 := ByteOrder.join16 _
  rw [values_cons, if_neg (by decide), joined, value]

theorem values_large {v : TransformValue} {o : List TransformValue} (large : 65536 ≤ v.value) :
    values (buildTransformValue v ++ rest) ≠ some (v :: o) := by
  unfold buildTransformValue
  rw [if_pos large]
  change values (0 :: v.type :: 4 :: 0 :: (endian32 v.value ++ rest)) ≠ _
  have size : (get16 [4, 0] 0).toNat = 1024 := by decide
  rw [values_cons, if_pos rfl, size]
  split
  · exact (some_ne_none _).symm
  · rename_i enough
    intro is
    obtain ⟨later, _, same⟩ := map_eq_some_iff.mp is
    rw [List.cons.injEq] at same
    have zero : v.value = 0 := by
      have length : ((endian32 v.value ++ rest).take 1024).length = 1024 := by
        rw [length_take]
        omega
      have value : longValue ((endian32 v.value ++ rest).take 1024) = 0 := by
        unfold longValue
        split
        · rename_i four
          simp [four] at length
        · rename_i two
          simp [two] at length
        · rename_i one
          simp [one] at length
        · rfl
      rw [← same.1]
      exact value
    rw [zero] at large
    exact absurd large (by decide)

theorem values_iff (vs : List TransformValue) :
    values (buildTransformValueList vs) = some vs ↔ ∀ v ∈ vs, v.value < 65536 := by
  induction vs with
  | nil => exact ⟨fun _ v member => (not_mem_nil member).elim, fun _ => rfl⟩
  | cons v vs ih =>
    unfold buildTransformValueList at ih ⊢
    rw [flatMap_cons, forall_mem_cons, ← ih]
    by_cases small : v.value < 65536
    · rw [values_small small, map_eq_some_iff]
      constructor
      · rintro ⟨later, is, same⟩
        rw [List.cons.injEq] at same
        exact ⟨small, same.2 ▸ is⟩
      · rintro ⟨_, is⟩
        exact ⟨vs, is, rfl⟩
    · exact ⟨fun is => absurd is (values_large (UInt32.not_lt.mp small)),
        fun both => absurd both.1 small⟩

theorem spiLoop_sizes {spiSize numSpi : ℕ} : ∀ {b : List UInt8} {spis : List (List UInt8)},
    spiLoop spiSize numSpi b = some spis → spis.length = numSpi ∧ ∀ spi ∈ spis, spi.length = spiSize := by
  induction numSpi with
  | zero =>
    intro b spis loops
    cases loops
    exact ⟨rfl, fun spi member => (not_mem_nil member).elim⟩
  | succ numSpi ih =>
    intro b spis loops
    rw [spiLoop] at loops
    split at loops
    · cases loops
    · rename_i enough
      obtain ⟨later, is, rfl⟩ := map_eq_some_iff.mp loops
      obtain ⟨count, sizes⟩ := ih is
      refine ⟨by rw [length_cons, count], ?_⟩
      intro spi member
      rcases mem_cons.mp member with rfl | inside
      · rw [length_take]
        omega
      · exact sizes spi inside

theorem spiLoop_flatten {spiSize : ℕ} {spis : List (List UInt8)} (sizes : ∀ spi ∈ spis, spi.length = spiSize) :
    spiLoop spiSize spis.length spis.flatten = some spis := by
  induction spis with
  | nil => rfl
  | cons spi spis ih =>
    have first := sizes spi mem_cons_self
    have later := ih fun spi member => sizes spi (mem_cons_of_mem _ member)
    rw [length_cons, flatten_cons, spiLoop, if_neg (by rw [length_append]; omega), ← first,
      drop_left, take_left, first, later, Option.map_some]

theorem spiLoop_iff (spis : List (List UInt8)) :
    spiLoop (UInt8.ofNat (spis.headD []).length).toNat (get16 (raw16 (UInt16.ofNat spis.length)) 0).toNat
        spis.flatten = some spis ↔ Palindromic spis.length ∧ SameSize spis := by
  constructor
  · intro loops
    obtain ⟨count, sizes⟩ := spiLoop_sizes loops
    refine ⟨count.symm, ?_⟩
    intro spi member
    have size := sizes spi member
    have first : (spis.headD []).length = (UInt8.ofNat (spis.headD []).length).toNat := by
      cases spis with
      | nil => exact (not_mem_nil member).elim
      | cons head spis => exact sizes head mem_cons_self
    have bound := (UInt8.ofNat (spis.headD []).length).toNat_lt
    exact ⟨size.trans first.symm, by omega⟩
  · rintro ⟨palindromic, same⟩
    have count : (get16 (raw16 (UInt16.ofNat spis.length)) 0).toNat = spis.length := palindromic
    rw [count]
    refine spiLoop_flatten ?_
    intro spi member
    have bound := same spi member
    rw [UInt8.toNat_ofNat']
    omega

def reread (p : Payload) : Option Payload :=
  readPayload (fun type d => (parseList type d).1) p.payloadType (buildPayload p)

theorem payloadType_supported (p : Payload) : p.payloadType ≠ 0 ∧ isSupported p.payloadType = true := by
  have listed : ∀ type ∈ ([1, 2, 3, 4, 5, 6, 7, 8, 9, 10, 11, 12, 13] : List UInt8),
      type ≠ 0 ∧ isSupported type = true := forall_iff_forall_mem.mp (by decide)
  refine listed _ ?_
  cases p with
  | data kind data =>
    cases kind with
    | keyExchange => simp [Payload.payloadType, DataKind.payloadType]
    | hash => simp [Payload.payloadType, DataKind.payloadType]
    | sign => simp [Payload.payloadType, DataKind.payloadType]
    | rand => simp [Payload.payloadType, DataKind.payloadType]
    | vendorId => simp [Payload.payloadType, DataKind.payloadType]
  | _ => simp [Payload.payloadType]

theorem parseList_cons (next : UInt8) (small : (buildPayload p).length < 65532) :
    parseList p.payloadType (commonHeader next (buildPayload p).length ++ buildPayload p ++ rest) =
      match reread p with
      | none => (none, 4 + (buildPayload p).length)
      | some pay => ((parseList next rest).1.map fun o => pay :: o,
          4 + (buildPayload p).length + (parseList next rest).2) := by
  have size : (get16 (commonHeader next (buildPayload p).length ++ buildPayload p ++ rest) 2).toNat =
      (buildPayload p).length + 4 := by
    have joined : get16 (commonHeader next (buildPayload p).length ++ buildPayload p ++ rest) 2 =
        UInt16.ofNat ((buildPayload p).length + 4) := ByteOrder.join16 _
    rw [joined, UInt16.toNat_ofNat']
    omega
  have dropped : (commonHeader next (buildPayload p).length ++ buildPayload p ++ rest).drop 4 =
      buildPayload p ++ rest := rfl
  have first : (commonHeader next (buildPayload p).length ++ buildPayload p ++ rest).getD 0 0 = next := rfl
  have length : (commonHeader next (buildPayload p).length ++ buildPayload p ++ rest).length =
      4 + ((buildPayload p).length + rest.length) := by
    rw [append_assoc, length_append, length_append]
    rfl
  obtain ⟨some', supported⟩ := payloadType_supported p
  rw [parseList_turn, turn, if_neg some', length, if_neg (by omega), size, if_neg (by omega), dropped,
    if_neg (by rw [length_append]; omega), first, Nat.add_sub_cancel]
  dsimp only
  rw [take_left, drop_left, if_pos supported]
  rfl

theorem buildPayload_length_le (member : p ∈ o) : (buildPayload p).length ≤ (buildPayloadList o).length := by
  induction o with
  | nil => exact (not_mem_nil member).elim
  | cons q o ih =>
    rw [buildPayloadList, length_append, length_append]
    rcases mem_cons.mp member with rfl | later
    · omega
    · have := ih later
      omega

theorem parseList_buildPayloadList (small : ∀ p ∈ o, (buildPayload p).length < 65532) :
    ((parseList (getFirstPayloadType o) (buildPayloadList o ++ extra)).1 = some o ↔ ∀ p ∈ o, reread p = some p) ∧
      ((∀ p ∈ o, reread p = some p) →
        (parseList (getFirstPayloadType o) (buildPayloadList o ++ extra)).2 = (buildPayloadList o).length) := by
  induction o with
  | nil =>
    have last : parseList (getFirstPayloadType []) (buildPayloadList [] ++ extra) = (some [], 0) := by
      rw [parseList_turn, turn]
      exact if_pos rfl
    rw [last]
    exact ⟨⟨fun _ p member => (not_mem_nil member).elim, fun _ => rfl⟩, fun _ => rfl⟩
  | cons q o ih =>
    obtain ⟨same, total⟩ := ih fun p member => small p (mem_cons_of_mem _ member)
    have first := small q mem_cons_self
    rw [buildPayloadList, append_assoc, getFirstPayloadType, parseList_cons _ first, forall_mem_cons]
    cases reads : reread q with
    | none =>
      constructor
      · exact ⟨fun is => absurd is (some_ne_none _).symm,
          fun both => absurd both.1 (some_ne_none _).symm⟩
      · exact fun both => absurd both.1 (some_ne_none _).symm
    | some pay =>
      dsimp only
      constructor
      · rw [map_eq_some_iff, ← same]
        constructor
        · rintro ⟨later, is, both⟩
          rw [List.cons.injEq] at both
          exact ⟨congrArg some both.1, both.2 ▸ is⟩
        · rintro ⟨is, later⟩
          exact ⟨o, later, by rw [some.inj is]⟩
      · rintro ⟨_, later⟩
        rw [total later, length_append, length_append]
        have header : (commonHeader (getFirstPayloadType o) (buildPayload q).length).length = 4 := rfl
        omega

variable {pay : Payload}

theorem payloadType_of_read {short : Prop} [Decidable short] {q : Payload}
    (reads : (if short then none else some q) = some pay) : pay.payloadType = q.payloadType :=
  congrArg Payload.payloadType (some.inj (ite_none_left_eq_some.mp reads).2).symm

theorem readSa_type (reads : readSa lists b = some pay) : pay.payloadType = 1 := payloadType_of_read reads

theorem readProposal_type (reads : readProposal lists b = some pay) : pay.payloadType = 2 := payloadType_of_read reads

theorem readTransform_type (reads : readTransform b = some pay) : pay.payloadType = 3 := payloadType_of_read reads

theorem parseIdPayload_type (reads : parseIdPayload b = some pay) : pay.payloadType = 5 := payloadType_of_read reads

theorem parseCertPayload_type (reads : parseCertPayload b = some pay) : pay.payloadType = 6 := payloadType_of_read reads

theorem parseCertRequestPayload_type (reads : parseCertRequestPayload b = some pay) : pay.payloadType = 7 :=
  payloadType_of_read reads

theorem parseNoticePayload_type (reads : parseNoticePayload b = some pay) : pay.payloadType = 11 := by
  obtain ⟨_, reads'⟩ := ite_none_left_eq_some.mp reads
  obtain ⟨_, reads''⟩ := ite_none_left_eq_some.mp reads'
  obtain ⟨_, is⟩ := ite_none_left_eq_some.mp reads''
  cases is
  rfl

theorem parseDeletePayload_type (reads : parseDeletePayload b = some pay) : pay.payloadType = 12 := by
  obtain ⟨_, reads'⟩ := ite_none_left_eq_some.mp reads
  obtain ⟨_, reads''⟩ := ite_none_left_eq_some.mp reads'
  obtain ⟨spis, _, is⟩ := map_eq_some_iff.mp reads''
  rw [← is]
  rfl

theorem readPayload_type (reads : readPayload lists type b = some pay) (supported : isSupported type = true) :
    pay.payloadType = type := by
  have data : ∀ kind, some (Payload.data kind b) = some pay → pay.payloadType = kind.payloadType := by
    intro kind is
    cases is
    rfl
  have listed : type ∈ ([1, 2, 3, 4, 5, 6, 7, 8, 9, 10, 11, 12, 13] : List UInt8) := by
    have bounds : 1 ≤ type ∧ type ≤ 13 := of_decide_eq_true supported
    have numbers : ∀ n < 14, 1 ≤ n →
        UInt8.ofNat n ∈ ([1, 2, 3, 4, 5, 6, 7, 8, 9, 10, 11, 12, 13] : List UInt8) := by decide
    have member := numbers type.toNat (Nat.lt_succ_of_le bounds.2) bounds.1
    rwa [UInt8.ofNat_toNat] at member
  simp only [mem_cons, not_mem_nil, or_false] at listed
  rcases listed with rfl | rfl | rfl | rfl | rfl | rfl | rfl | rfl | rfl | rfl | rfl | rfl | rfl
  · exact readSa_type reads
  · exact readProposal_type reads
  · exact readTransform_type reads
  · exact data .keyExchange reads
  · exact parseIdPayload_type reads
  · exact parseCertPayload_type reads
  · exact parseCertRequestPayload_type reads
  · exact data .hash reads
  · exact data .sign reads
  · exact data .rand reads
  · exact parseNoticePayload_type reads
  · exact parseDeletePayload_type reads
  · exact data .vendorId reads

theorem parseList_first (supported : isSupported type = true) (reads : (parseList type b).1 = some o) :
    getFirstPayloadType o = type := by
  have some' : type ≠ 0 := by
    rintro rfl
    exact absurd supported (by decide)
  rw [parseList_turn, turn, if_neg some'] at reads
  by_cases short : b.length < 4
  · rw [if_pos short] at reads
    cases reads
  rw [if_neg short] at reads
  by_cases small : (get16 b 2).toNat < 4
  · rw [if_pos small] at reads
    cases reads
  rw [if_neg small] at reads
  by_cases none' : (b.drop 4).length < (get16 b 2).toNat - 4
  · rw [if_pos none'] at reads
    cases reads
  rw [if_neg none'] at reads
  dsimp only at reads
  rw [if_pos supported] at reads
  split at reads
  · cases reads
  · rename_i pay is
    obtain ⟨later, _, rfl⟩ := map_eq_some_iff.mp reads
    exact readPayload_type is supported

theorem ofNat_length (spi : List UInt8) : (UInt8.ofNat spi.length).toNat = spi.length % 256 := UInt8.toNat_ofNat'

theorem reread_sa (payloadList : Option (List Payload)) :
    reread (.sa payloadList) = some (.sa payloadList) ↔
      (parseList seIkePayloadProposal (buildPayloads payloadList)).1 = payloadList := by
  have long : 8 ≤ (buildPayload (.sa payloadList)).length := by
    rw [buildPayload, length_append, length_append]
    exact Nat.le_add_right 8 _
  have doI : get32 (buildPayload (.sa payloadList)) 0 = 1 := by
    rw [buildPayload]
    exact ByteOrder.join32 1
  have situation : get32 (buildPayload (.sa payloadList)) 4 = 1 := by
    rw [buildPayload]
    exact ByteOrder.join32 1
  have dropped : (buildPayload (.sa payloadList)).drop 8 = buildPayloads payloadList := by
    rw [buildPayload]
    rfl
  have reads := @readSa_eq _ (fun type d => (parseList type d).1) long doI situation
  have is : reread (.sa payloadList) = some (.sa (parseList 2 ((buildPayload (.sa payloadList)).drop 8)).1) := reads
  rw [is, dropped, some.injEq, Payload.sa.injEq]
  rfl

theorem reread_proposal (number protocolId : UInt8) (spi : List UInt8) (payloadList : Option (List Payload)) :
    reread (.proposal number protocolId spi payloadList) = some (.proposal number protocolId spi payloadList) ↔
      spi.length < 256 ∧ (parseList seIkePayloadTransform (buildPayloads payloadList)).1 = payloadList := by
  have bytes : buildPayload (.proposal number protocolId spi payloadList) =
      number :: protocolId :: UInt8.ofNat spi.length :: UInt8.ofNat (payloadList.getD []).length ::
        (spi ++ buildPayloads payloadList) := by
    rw [buildPayload]
    rfl
  have size : ((buildPayload (.proposal number protocolId spi payloadList)).getD 2 0).toNat = spi.length % 256 := by
    rw [bytes]
    exact ofNat_length spi
  have fits := Nat.mod_le spi.length 256
  have length : (buildPayload (.proposal number protocolId spi payloadList)).length =
      4 + (spi.length + (buildPayloads payloadList).length) := by
    rw [bytes, ← length_append, Nat.add_comm]
    rfl
  have reads := @readProposal_eq (buildPayload (.proposal number protocolId spi payloadList))
    (fun type d => (parseList type d).1) (by omega) (by omega)
  have is : reread (.proposal number protocolId spi payloadList) =
      some (.proposal number protocolId ((spi ++ buildPayloads payloadList).take (spi.length % 256))
        (parseList 3 ((spi ++ buildPayloads payloadList).drop (spi.length % 256))).1) := by
    rw [size, ← drop_drop, bytes] at reads
    unfold reread
    rw [bytes]
    exact reads
  rw [is, some.injEq, Payload.proposal.injEq]
  constructor
  · rintro ⟨_, _, spis, lists⟩
    have size := congrArg List.length spis
    rw [length_take] at size
    have whole : spi.length % 256 = spi.length := by omega
    rw [whole, drop_left] at lists
    exact ⟨by omega, lists⟩
  · rintro ⟨bound, lists⟩
    rw [Nat.mod_eq_of_lt bound, take_left, drop_left]
    exact ⟨rfl, rfl, rfl, lists⟩

theorem reread_transform (number transformId : UInt8) (valueList : Option (List TransformValue)) :
    reread (.transform number transformId valueList) = some (.transform number transformId valueList) ↔
      ∃ o, valueList = some o ∧ ∀ v ∈ o, v.value < 65536 := by
  have bytes : buildPayload (.transform number transformId valueList) =
      number :: transformId :: 0 :: 0 :: buildTransformValueList (valueList.getD []) := by
    rw [buildPayload]
    rfl
  have is : reread (.transform number transformId valueList) =
      some (.transform number transformId (values (buildTransformValueList (valueList.getD [])))) := by
    have long : 4 ≤ (buildPayload (.transform number transformId valueList)).length := by
      rw [bytes]
      exact Nat.le_add_left 4 _
    refine Eq.trans (readTransform_eq long) ?_
    rw [bytes]
    rfl
  rw [is, some.injEq, Payload.transform.injEq]
  cases valueList with
  | none =>
    have empty : values (buildTransformValueList []) = some [] := rfl
    rw [Option.getD_none, empty]
    constructor
    · rintro ⟨_, _, other⟩
      exact absurd other (some_ne_none [])
    · rintro ⟨o, other, _⟩
      cases other
  | some vs =>
    rw [Option.getD_some, values_iff]
    constructor
    · rintro ⟨_, _, small⟩
      exact ⟨vs, rfl, small⟩
    · rintro ⟨o, same, small⟩
      exact ⟨rfl, rfl, some.inj same ▸ small⟩

theorem reread_notice (protocolId : UInt8) (messageType : UInt16) (spi messageData : List UInt8) :
    reread (.notice protocolId messageType spi messageData) =
        some (.notice protocolId messageType spi messageData) ↔
      spi.length < 256 ∧ messageData = [] := by
  have long : 8 ≤ (buildPayload (.notice protocolId messageType spi messageData)).length := by
    rw [buildPayload, length_append]
    exact Nat.le_add_right 8 _
  have doI : get32 (buildPayload (.notice protocolId messageType spi messageData)) 0 = 1 := by
    rw [buildPayload]
    exact ByteOrder.join32 1
  have size : ((buildPayload (.notice protocolId messageType spi messageData)).getD 5 0).toNat = spi.length % 256 := by
    rw [buildPayload]
    exact ofNat_length spi
  have kind : get16 (buildPayload (.notice protocolId messageType spi messageData)) 6 = messageType := by
    rw [buildPayload]
    exact ByteOrder.join16 messageType
  have protocol : (buildPayload (.notice protocolId messageType spi messageData)).getD 4 0 = protocolId := by
    rw [buildPayload]
    rfl
  have dropped : (buildPayload (.notice protocolId messageType spi messageData)).drop 8 = spi := by
    rw [buildPayload]
    rfl
  have length : (buildPayload (.notice protocolId messageType spi messageData)).length = 8 + spi.length := by
    rw [buildPayload, length_append]
    rfl
  have fits := Nat.mod_le spi.length 256
  have reads := parseNoticePayload_eq long doI (by omega)
  rw [size, kind, protocol, dropped] at reads
  have is : reread (.notice protocolId messageType spi messageData) = some (.notice protocolId messageType
      (spi.take (spi.length % 256)) (spi.drop (spi.length % 256))) := reads
  rw [is, some.injEq, Payload.notice.injEq]
  constructor
  · rintro ⟨_, _, spis, data⟩
    have taken := congrArg List.length spis
    rw [length_take] at taken
    have whole : spi.length % 256 = spi.length := by omega
    rw [whole, drop_length] at data
    exact ⟨by omega, data.symm⟩
  · rintro ⟨bound, rfl⟩
    rw [Nat.mod_eq_of_lt bound, take_length, drop_length]
    exact ⟨rfl, rfl, rfl, rfl⟩

theorem reread_delete (protocolId : UInt8) (spiList : List (List UInt8)) :
    reread (.delete protocolId spiList) = some (.delete protocolId spiList) ↔
      Palindromic spiList.length ∧ SameSize spiList := by
  have long : 8 ≤ (buildPayload (.delete protocolId spiList)).length := by
    rw [buildPayload, length_append]
    exact Nat.le_add_right 8 _
  have doI : get32 (buildPayload (.delete protocolId spiList)) 0 = 1 := by
    rw [buildPayload]
    exact ByteOrder.join32 1
  have reads := parseDeletePayload_eq long doI
  have is : reread (.delete protocolId spiList) =
      (spiLoop (UInt8.ofNat (spiList.headD []).length).toNat
        (get16 (raw16 (UInt16.ofNat spiList.length)) 0).toNat spiList.flatten).map (.delete protocolId) := by
    unfold reread
    refine Eq.trans reads ?_
    rw [buildPayload]
    rfl
  rw [is, ← spiLoop_iff, map_eq_some_iff]
  constructor
  · rintro ⟨spis, loops, same⟩
    rw [Payload.delete.injEq] at same
    exact same.2 ▸ loops
  · exact fun loops => ⟨spiList, loops, rfl⟩

theorem reread_id (type protocolId : UInt8) (port : UInt16) (idData : List UInt8) :
    reread (.id type protocolId port idData) = some (.id type protocolId port idData) := by
  have bytes : buildPayload (.id type protocolId port idData) =
      [type, protocolId] ++ endian16 port ++ idData := by rw [buildPayload]
  have same : get16 (buildPayload (.id type protocolId port idData)) 2 = port := by
    rw [bytes]
    exact ByteOrder.join16 port
  have long : 4 ≤ (buildPayload (.id type protocolId port idData)).length := by
    rw [bytes, length_append]
    exact Nat.le_add_right 4 _
  have reads := parseIdPayload_eq long
  rw [same] at reads
  refine Eq.trans reads ?_
  rw [bytes]
  rfl

theorem reread_cert (certType : UInt8) (certData : List UInt8) :
    reread (.cert certType certData) = some (.cert certType certData) := by
  have long : 1 ≤ (certType :: certData).length := Nat.le_add_left 1 _
  unfold reread
  rw [buildPayload]
  exact parseCertPayload_eq long

theorem reread_certRequest (certType : UInt8) (data : List UInt8) :
    reread (.certRequest certType data) = some (.certRequest certType data) := by
  have long : 1 ≤ (certType :: data).length := Nat.le_add_left 1 _
  unfold reread
  rw [buildPayload]
  exact parseCertRequestPayload_eq long

theorem reread_data (kind : DataKind) (data : List UInt8) : reread (.data kind data) = some (.data kind data) := by
  unfold reread
  rw [buildPayload]
  cases kind with
  | keyExchange => rfl
  | hash => rfl
  | sign => rfl
  | rand => rfl
  | vendorId => rfl

theorem parseList_buildPayloads {lists : Option (List Payload)} (supported : isSupported type = true)
    (small : (buildPayloads lists).length < 65532) :
    (parseList type (buildPayloads lists)).1 = lists ↔
      ∀ o, lists = some o → getFirstPayloadType o = type ∧ ∀ p ∈ o, reread p = some p := by
  cases lists with
  | none =>
    have some' : type ≠ 0 := by
      rintro rfl
      exact absurd supported (by decide)
    have empty : parseList type (buildPayloads none) = (none, 0) := by
      rw [parseList_turn, turn, if_neg some', buildPayloads]
      exact if_pos (Nat.zero_lt_succ 3)
    rw [empty]
    exact ⟨fun _ o other => absurd other (some_ne_none o).symm, fun _ => rfl⟩
  | some o =>
    rw [buildPayloads] at small ⊢
    have whole := @parseList_buildPayloadList [] o fun p member =>
      Nat.lt_of_le_of_lt (buildPayload_length_le member) small
    rw [append_nil] at whole
    constructor
    · intro reads o' same
      obtain rfl := some.inj same
      have first := parseList_first supported reads
      rw [← first] at reads
      exact ⟨first, whole.1.mp reads⟩
    · intro each
      obtain ⟨first, rereads⟩ := each o rfl
      rw [← first]
      exact whole.1.mpr rereads

mutual

theorem reread_iff : ∀ p : Payload, (buildPayload p).length < 65532 → (reread p = some p ↔ Faithful p)
  | .sa payloadList, small => by
      have below : (buildPayloads payloadList).length < 65532 := by
        rw [buildPayload, length_append] at small
        omega
      rw [reread_sa, Faithful, parseList_buildPayloads (by decide) below]
      exact rereads_iff payloadList below
  | .proposal number protocolId spi payloadList, small => by
      have below : (buildPayloads payloadList).length < 65532 := by
        rw [buildPayload, length_append] at small
        omega
      rw [reread_proposal, Faithful, parseList_buildPayloads (by decide) below]
      exact and_congr_right' (rereads_iff payloadList below)
  | .transform number transformId valueList, _ => by rw [reread_transform, Faithful]
  | .id type protocolId port idData, _ => by simp [reread_id, Faithful]
  | .cert certType certData, _ => by simp [reread_cert, Faithful]
  | .certRequest certType data, _ => by simp [reread_certRequest, Faithful]
  | .notice protocolId messageType spi messageData, _ => by rw [reread_notice, Faithful]
  | .delete protocolId spiList, _ => by rw [reread_delete, Faithful]
  | .data kind data, _ => by simp [reread_data, Faithful]

theorem rereads_iff {first : UInt8} : ∀ lists : Option (List Payload),
    (buildPayloads lists).length < 65532 →
    ((∀ o, lists = some o → getFirstPayloadType o = first ∧ ∀ p ∈ o, reread p = some p) ↔ FaithfulLists first lists)
  | none, _ => by simp [FaithfulLists]
  | some o, small => by
      rw [buildPayloads] at small
      have each := rereadAll_iff o fun p member =>
        Nat.lt_of_le_of_lt (buildPayload_length_le member) small
      rw [FaithfulLists, ← each]
      exact ⟨fun given => given o rfl, fun given o' same => some.inj same ▸ given⟩

theorem rereadAll_iff : ∀ o : List Payload, (∀ p ∈ o, (buildPayload p).length < 65532) →
    ((∀ p ∈ o, reread p = some p) ↔ AllFaithful o)
  | [], _ => by simp [AllFaithful]
  | p :: o, small => by
      rw [forall_mem_cons, AllFaithful, reread_iff p (small p mem_cons_self),
        rereadAll_iff o fun q member => small q (mem_cons_of_mem p member)]

end

section Messages

variable {packet : Packet} {next : UInt8} {size : ℕ} {d : List UInt8}

theorem headerBytes_length : (headerBytes packet next size).length = 28 := rfl

theorem headerBytes_flags :
    decide ((headerBytes packet next size ++ d).getD 19 0 &&& 1 ≠ 0) = packet.flagEncrypted ∧
      decide ((headerBytes packet next size ++ d).getD 19 0 &&& 2 ≠ 0) = packet.flagCommit ∧
      decide ((headerBytes packet next size ++ d).getD 19 0 &&& 4 ≠ 0) = packet.flagAuthOnly := by
  have flag : (headerBytes packet next size ++ d).getD 19 0 =
      (if packet.flagEncrypted then 1 else 0) ||| (if packet.flagCommit then 2 else 0) |||
        (if packet.flagAuthOnly then 4 else 0) := rfl
  rw [flag]
  cases packet.flagEncrypted <;> cases packet.flagCommit <;> cases packet.flagAuthOnly <;> decide

theorem headerBytes_size (fits : size + 28 < 2 ^ 32) :
    (get32 (headerBytes packet next size ++ d) 24).toNat = size + 28 := by
  have joined : get32 (headerBytes packet next size ++ d) 24 = UInt32.ofNat (size + 28) := ByteOrder.join32 _
  rw [joined, UInt32.toNat_ofNat', Nat.mod_eq_of_lt fits]

theorem packetOf_headerBytes (o : Option (List Payload)) (e : Option (List UInt8)) :
    packetOf (headerBytes packet next size ++ d) o e = { packet with payloadList := o, decryptedPayload := e } := by
  obtain ⟨encrypted, commit, authOnly⟩ := @headerBytes_flags packet next size d
  have initiator : (fun i : Fin 8 => (headerBytes packet next size ++ d).getD i 0) = packet.initiatorCookie := by
    funext i
    match i with
    | 0 | 1 | 2 | 3 | 4 | 5 | 6 | 7 => rfl
  have responder : (fun i : Fin 8 => (headerBytes packet next size ++ d).getD (8 + i) 0) = packet.responderCookie := by
    funext i
    match i with
    | 0 | 1 | 2 | 3 | 4 | 5 | 6 | 7 => rfl
  have messageId : get32 (headerBytes packet next size ++ d) 20 = packet.messageId := ByteOrder.join32 _
  unfold packetOf
  rw [commit, authOnly, encrypted, initiator, responder, messageId]
  rfl

theorem headerBytes_payload (fits : d.length + 28 < 2 ^ 32) :
    ((headerBytes packet next d.length ++ d).drop 28).take
      ((get32 (headerBytes packet next d.length ++ d) 24).toNat - 28) = d := by
  rw [headerBytes_size fits, Nat.add_sub_cancel]
  exact take_length

theorem padding_length (size : ℕ) : (size + (padding size).length) % 8 = 0 := by
  unfold padding
  rw [length_map, length_range]
  split
  · split <;> omega
  · split <;> omega

variable {κ : Type} {crypto : Esp.Crypto κ} {c : CryptoParam κ}

theorem seIkeEncryptWithPadding_eq (data : List UInt8) :
    ∃ cipher, seIkeEncryptWithPadding crypto c data = some (cipher, nextIv cipher) ∧
      seIkeDecrypt crypto c cipher = some (data ++ padding data.length, nextIv cipher) := by
  have blocks : (data ++ padding data.length).length % 8 = 0 := by
    rw [length_append]
    exact padding_length data.length
  have length := crypto.length_encrypt c.desKey c.iv _ blocks
  refine ⟨crypto.des3Encrypt c.desKey c.iv (data ++ padding data.length), ?_, ?_⟩
  · unfold seIkeEncryptWithPadding seIkeEncrypt
    rw [if_neg (not_not.mpr blocks)]
  · unfold seIkeDecrypt
    rw [length, if_neg (not_not.mpr blocks), crypto.decrypt_encrypt _ _ _ blocks]

theorem read_packet_iff (small : ∀ q ∈ o, (buildPayload q).length < 65532) {e : List UInt8}
    (decrypted : (parseList (getFirstPayloadType o) (buildPayloadList o ++ extra)).1 = some o →
      e = buildPayloadList o) :
    ({ packet with
        payloadList := (parseList (getFirstPayloadType o) (buildPayloadList o ++ extra)).1
        decryptedPayload := some e } : Packet) =
      { packet with payloadList := some o, decryptedPayload := some (buildPayloadList o) } ↔
      AllFaithful o := by
  rw [← rereadAll_iff o small, ← (@parseList_buildPayloadList extra o small).1]
  constructor
  · exact fun same => congrArg Packet.payloadList same
  · intro reads
    rw [reads, decrypted reads]

/-- Every message that fits into its size field is read with the fields of its header. The payloads, the
`DecryptedPayload` and the `NextIv` are those of the packet that it was built of if and only if all of its
payloads are faithful. -/
theorem seIkeParse_seIkeBuild (crypto : Esp.Crypto κ) (c : CryptoParam κ) (packet : Packet)
    (o : List Payload) (small : ∀ q ∈ o, (buildPayload q).length < 65532)
    (fits : ∀ built, seIkeBuild crypto c packet o = some built → built.message.length < 2 ^ 32) :
    ∃ built q iv n, seIkeBuild crypto c packet o = some built ∧
      (∀ fuel, n < fuel →
        seIkeParse fuel (seIkeDecrypt crypto c) built.message = some (some q, iv)) ∧
      ((q = { packet with payloadList := some o, decryptedPayload := some built.decryptedPayload } ∧
        iv = built.nextIv) ↔ AllFaithful o) := by
  have flag (d : List UInt8) (size : ℕ) := (@headerBytes_flags packet (getFirstPayloadType o) size d).1
  by_cases encrypted : packet.flagEncrypted = true
  · obtain ⟨cipher, encrypts, decrypts⟩ :=
      @seIkeEncryptWithPadding_eq κ crypto c (buildPayloadList o)
    have builds : seIkeBuild crypto c packet o = some ⟨headerBytes packet (getFirstPayloadType o)
        cipher.length ++ cipher, buildPayloadList o, some (nextIv cipher)⟩ := by
      unfold seIkeBuild
      rw [if_pos encrypted, encrypts]
    have size := fits _ builds
    rw [length_append, headerBytes_length, Nat.add_comm] at size
    have set := flag cipher cipher.length
    rw [encrypted, decide_eq_true_iff] at set
    have payload := @headerBytes_payload packet (getFirstPayloadType o) cipher size
    rw [← payload] at decrypts
    have has : HasPayload (seIkeDecrypt crypto c) (headerBytes packet (getFirstPayloadType o)
        cipher.length ++ cipher) (getFirstPayloadType o)
        (buildPayloadList o ++ padding (buildPayloadList o).length) := by
      refine ⟨?_, ?_, rfl, fun _ => ⟨_, decrypts⟩, fun clear => absurd clear set⟩
      · rw [length_append, headerBytes_length]
        omega
      · rw [headerBytes_size size, length_append, headerBytes_length]
        omega
    have reads := fun fuel enough => @seIkeParse_encrypted _ _ _ _ fuel has _ set decrypts enough
    rw [packetOf_headerBytes, payload] at reads
    refine ⟨_, _, _, _, builds, reads, ?_⟩
    rw [← @read_packet_iff (padding (buildPayloadList o).length) o packet small]
    · exact and_iff_left rfl
    · intro reads
      have same := @parseList_buildPayloadList (padding (buildPayloadList o).length) o small
      rw [same.2 (same.1.mp reads), length_append, Nat.min_eq_right (Nat.le_add_right _ _), take_left]
  · have builds : seIkeBuild crypto c packet o = some ⟨headerBytes packet (getFirstPayloadType o)
        (buildPayloadList o).length ++ buildPayloadList o, buildPayloadList o, none⟩ := by
      unfold seIkeBuild
      rw [if_neg encrypted]
    have size := fits _ builds
    rw [length_append, headerBytes_length, Nat.add_comm] at size
    have clear := flag (buildPayloadList o) (buildPayloadList o).length
    rw [Bool.eq_false_of_not_eq_true encrypted, decide_eq_false_iff_not, not_not] at clear
    have has : HasPayload (seIkeDecrypt crypto c) (headerBytes packet (getFirstPayloadType o)
        (buildPayloadList o).length ++ buildPayloadList o) (getFirstPayloadType o)
        (buildPayloadList o) := by
      refine ⟨?_, ?_, rfl, fun set => absurd clear set, fun _ => headerBytes_payload size⟩
      · rw [length_append, headerBytes_length]
        omega
      · rw [headerBytes_size size, length_append, headerBytes_length]
        omega
    have reads := fun fuel enough => @seIkeParse_plain _ _ _ _ fuel has clear enough
    rw [packetOf_headerBytes] at reads
    refine ⟨_, _, _, _, builds, reads, ?_⟩
    have whole := @read_packet_iff [] o packet small (buildPayloadList o) fun _ => rfl
    rw [append_nil] at whole
    rw [← whole]
    exact and_iff_left rfl

def informational (encrypted : Bool) (o : List Payload) : Packet where
  initiatorCookie := fun _ => 0
  responderCookie := fun _ => 0
  exchangeType := 5
  flagEncrypted := encrypted
  flagCommit := false
  flagAuthOnly := false
  messageId := 0
  payloadList := some o
  decryptedPayload := none

/-- The payloads of an encrypted message with a proposal are read as they were. -/
theorem seIkeParse_seIkeBuild_proposal :
    ∃ built q iv n,
      seIkeBuild Esp.clearCrypto ⟨(), []⟩
        (informational true [.sa (some [.proposal 1 3 [1, 2, 3, 4] (some [.transform 1 2 (some [])])])])
        [.sa (some [.proposal 1 3 [1, 2, 3, 4] (some [.transform 1 2 (some [])])])] = some built ∧
      (∀ fuel, n < fuel → seIkeParse fuel (seIkeDecrypt Esp.clearCrypto ⟨(), []⟩) built.message = some (some q, iv)) ∧
      ((q = { informational true
            [.sa (some [.proposal 1 3 [1, 2, 3, 4] (some [.transform 1 2 (some [])])])] with
          payloadList := some [.sa (some [.proposal 1 3 [1, 2, 3, 4] (some [.transform 1 2 (some [])])])]
          decryptedPayload := some built.decryptedPayload } ∧ iv = built.nextIv) ↔
        AllFaithful [.sa (some [.proposal 1 3 [1, 2, 3, 4] (some [.transform 1 2 (some [])])])]) := by
  refine seIkeParse_seIkeBuild Esp.clearCrypto ⟨(), []⟩ _ _ ?_ ?_
  · intro q member
    rw [mem_singleton.mp member]
    decide
  · intro built is
    rw [← some.inj is]
    decide

/-- The SPI of a deletion, a value of more than 16 bits and the data of a notice are not read. -/
theorem not_read_as_built :
    (∃ built q, seIkeBuild Esp.clearCrypto ⟨(), []⟩ (informational false [.delete 3 [[1, 2, 3, 4]]])
        [.delete 3 [[1, 2, 3, 4]]] = some built ∧
      seIkeParse 60 (seIkeDecrypt Esp.clearCrypto ⟨(), []⟩) built.message = some (some q, none) ∧
      q.payloadList = none) ∧
    (∃ built q, seIkeBuild Esp.clearCrypto ⟨(), []⟩
        (informational false [.transform 1 1 (some [⟨12, 65536⟩])])
        [.transform 1 1 (some [⟨12, 65536⟩])] = some built ∧
      seIkeParse 60 (seIkeDecrypt Esp.clearCrypto ⟨(), []⟩) built.message = some (some q, none) ∧
      q.payloadList = some [.transform 1 1 none]) ∧
    (∃ built q, seIkeBuild Esp.clearCrypto ⟨(), []⟩ (informational false [.notice 3 1 [1, 2, 3, 4] [5]])
        [.notice 3 1 [1, 2, 3, 4] [5]] = some built ∧
      seIkeParse 60 (seIkeDecrypt Esp.clearCrypto ⟨(), []⟩) built.message = some (some q, none) ∧
      q.payloadList = some [.notice 3 1 [1, 2, 3, 4] []]) :=
  ⟨⟨_, _, rfl, rfl, rfl⟩, ⟨_, _, rfl, rfl, rfl⟩, ⟨_, _, rfl, rfl, rfl⟩⟩

end Messages

end DisasVisor.Vpn.Ike
