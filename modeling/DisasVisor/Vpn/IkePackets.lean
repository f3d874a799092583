import DisasVisor.Vpn.EspRoundTrip
import DisasVisor.Lib.Words

/-!
IKE messages in `vpn/lib/Se/SeIke.c`: `SeIkeBuild` and `SeIkeParse` with the payloads. A read outside of a
buffer has no result, and `NULL` is `none` as a result.
-/

namespace DisasVisor.Vpn.Ike

structure TransformValue where
  type : UInt8
  value : UInt32
  deriving DecidableEq

inductive DataKind
  | keyExchange
  | hash
  | sign
  | rand
  | vendorId
  deriving DecidableEq

inductive Payload
  | sa (payloadList : Option (List Payload))
  | proposal (number protocolId : UInt8) (spi : List UInt8) (payloadList : Option (List Payload))
  | transform (number transformId : UInt8) (valueList : Option (List TransformValue))
  | id (type protocolId : UInt8) (port : UInt16) (idData : List UInt8)
  | cert (certType : UInt8) (certData : List UInt8)
  | certRequest (certType : UInt8) (data : List UInt8)
  | notice (protocolId : UInt8) (messageType : UInt16) (spi messageData : List UInt8)
  | delete (protocolId : UInt8) (spiList : List (List UInt8))
  | data (kind : DataKind) (data : List UInt8)

structure Packet where
  initiatorCookie : Fin 8 → UInt8
  responderCookie : Fin 8 → UInt8
  exchangeType : UInt8
  flagEncrypted : Bool
  flagCommit : Bool
  flagAuthOnly : Bool
  messageId : UInt32
  payloadList : Option (List Payload)
  decryptedPayload : Option (List UInt8)

def raw16 (x : UInt16) : List UInt8 := [x.toUInt8, (x >>> 8).toUInt8]

def endian16 (x : UInt16) : List UInt8 := [(x >>> 8).toUInt8, x.toUInt8]

def endian32 (x : UInt32) : List UInt8 := [(x >>> 24).toUInt8, (x >>> 16).toUInt8, (x >>> 8).toUInt8, x.toUInt8]

def get16 (b : List UInt8) (start : ℕ) : UInt16 := (b.getD start 0).toUInt16 <<< 8 ||| (b.getD (start + 1) 0).toUInt16

def get32 (b : List UInt8) (start : ℕ) : UInt32 :=
  (b.getD start 0).toUInt32 <<< 24 ||| (b.getD (start + 1) 0).toUInt32 <<< 16 |||
    (b.getD (start + 2) 0).toUInt32 <<< 8 ||| (b.getD (start + 3) 0).toUInt32

def seIkePayloadNone : UInt8 := 0

def seIkePayloadProposal : UInt8 := 2

def seIkePayloadTransform : UInt8 := 3

def seIkeSaDoiIpsec : UInt32 := 1

def seIkeSaSituationIdentity : UInt32 := 1

def DataKind.payloadType : DataKind → UInt8
  | .keyExchange => 4
  | .hash => 8
  | .sign => 9
  | .rand => 10
  | .vendorId => 13

def Payload.payloadType : Payload → UInt8
  | .sa _ => 1
  | .proposal .. => 2
  | .transform .. => 3
  | .id .. => 5
  | .cert .. => 6
  | .certRequest .. => 7
  | .notice .. => 11
  | .delete .. => 12
  | .data kind _ => kind.payloadType

def isSupported (payloadType : UInt8) : Bool := 1 ≤ payloadType ∧ payloadType ≤ 13

def buildTransformValue (v : TransformValue) : List UInt8 :=
  if v.value ≥ 65536 then [0, v.type] ++ raw16 4 ++ endian32 v.value
  else [0x80, v.type] ++ endian16 v.value.toUInt16

def buildTransformValueList (o : List TransformValue) : List UInt8 := o.flatMap buildTransformValue

def getFirstPayloadType : List Payload → UInt8
  | [] => seIkePayloadNone
  | p :: _ => p.payloadType

def commonHeader (nextPayload : UInt8) (size : ℕ) : List UInt8 := [nextPayload, 0] ++ endian16 (UInt16.ofNat (size + 4))

mutual

def buildPayload : Payload → List UInt8
  | .sa payloadList => endian32 seIkeSaDoiIpsec ++ endian32 seIkeSaSituationIdentity ++ buildPayloads payloadList
  | .proposal number protocolId spi payloadList =>
    [number, protocolId, UInt8.ofNat spi.length, UInt8.ofNat (payloadList.getD []).length] ++ spi ++
      buildPayloads payloadList
  | .transform number transformId valueList =>
    [number, transformId, 0, 0] ++ buildTransformValueList (valueList.getD [])
  | .id type protocolId port idData => [type, protocolId] ++ endian16 port ++ idData
  | .cert certType certData => [certType] ++ certData
  | .certRequest certType data => [certType] ++ data
  | .notice protocolId messageType spi _ =>
    endian32 seIkeSaDoiIpsec ++ [protocolId, UInt8.ofNat spi.length] ++ endian16 messageType ++ spi
  | .delete protocolId spiList =>
    endian32 seIkeSaDoiIpsec ++ [protocolId, UInt8.ofNat (spiList.headD []).length] ++
      raw16 (UInt16.ofNat spiList.length) ++ spiList.flatten
  | .data _ data => data

def buildPayloads : Option (List Payload) → List UInt8
  | none => []
  | some o => buildPayloadList o

def buildPayloadList : List Payload → List UInt8
  | [] => []
  | p :: rest =>
    commonHeader (getFirstPayloadType rest) (buildPayload p).length ++ buildPayload p ++ buildPayloadList rest

end

structure CryptoParam (κ : Type) where
  desKey : κ
  iv : List UInt8

def nextIv (cipher : List UInt8) : List UInt8 :=
  if cipher.length ≥ 8 then cipher.drop (cipher.length - 8) else List.replicate 8 0

def seIkeEncrypt {κ : Type} (crypto : Esp.Crypto κ) (c : CryptoParam κ) (data : List UInt8) :
    Option (List UInt8 × List UInt8) :=
  if data.length % 8 ≠ 0 then none
  else
    let cipher := crypto.des3Encrypt c.desKey c.iv data
    some (cipher, nextIv cipher)

def seIkeDecrypt {κ : Type} (crypto : Esp.Crypto κ) (c : CryptoParam κ) (data : List UInt8) :
    Option (List UInt8 × List UInt8) :=
  if data.length % 8 ≠ 0 then none
  else some (crypto.des3Decrypt c.desKey c.iv data, nextIv data)

def padding (size : ℕ) : List UInt8 :=
  let totalSize := (size / 8 + if size % 8 = 0 then 0 else 1) * 8
  let totalSize := if totalSize = 0 then 8 else totalSize
  (List.range (totalSize - size)).map fun i => UInt8.ofNat (i + 1)

def seIkeEncryptWithPadding {κ : Type} (crypto : Esp.Crypto κ) (c : CryptoParam κ) (data : List UInt8) :
    Option (List UInt8 × List UInt8) :=
  seIkeEncrypt crypto c (data ++ padding data.length)

def headerBytes (p : Packet) (nextPayload : UInt8) (size : ℕ) : List UInt8 :=
  List.ofFn p.initiatorCookie ++ List.ofFn p.responderCookie ++
    [nextPayload, 0x10, p.exchangeType,
      (if p.flagEncrypted then 1 else 0) ||| (if p.flagCommit then 2 else 0) |||
        (if p.flagAuthOnly then 4 else 0)] ++
    endian32 p.messageId ++ endian32 (UInt32.ofNat (size + 28))

/-- What `SeIkeBuild` makes: the message, the `DecryptedPayload` and the `NextIv`, if it is set. -/
structure Built where
  message : List UInt8
  decryptedPayload : List UInt8
  nextIv : Option (List UInt8)

def seIkeBuild {κ : Type} (crypto : Esp.Crypto κ) (c : CryptoParam κ) (p : Packet)
    (payloadList : List Payload) : Option Built :=
  let msgBuf := buildPayloadList payloadList
  let first := getFirstPayloadType payloadList
  if p.flagEncrypted then
    match seIkeEncryptWithPadding crypto c msgBuf with
    | none => none
    | some (b, iv) => some ⟨headerBytes p first b.length ++ b, msgBuf, some iv⟩
  else some ⟨headerBytes p first msgBuf.length ++ msgBuf, msgBuf, none⟩

def slice (b : List UInt8) (start size : ℕ) : Option (List UInt8) :=
  if start + size ≤ b.length then some ((b.drop start).take size) else none

def longValue (tmp : List UInt8) : UInt32 :=
  match tmp with
  | [_, _, _, _] => get32 tmp 0
  | [_, _] => (get16 tmp 0).toUInt32
  | [x] => x.toUInt32
  | _ => 0

/-- The loop of `SeIkeParseTransformValueList`: `ok` is cleared when the size is not there, and then the
loop goes on. -/
def valueLoop : ℕ → Bool → List UInt8 → Option (Option (List TransformValue))
  | 0, _, _ => none
  | _ + 1, ok, [] => some (if ok then some [] else none)
  | _ + 1, _, [_] => some none
  | fuel + 1, ok, afBit :: type :: b =>
    let ok := ok && 2 ≤ b.length
    let size := get16 b 0
    let b := b.drop 2
    if afBit = 0 then
      if b.length < size.toNat then some none
      else do
        let later ← valueLoop fuel ok (b.drop size.toNat)
        some (later.map fun o => ⟨type, longValue (b.take size.toNat)⟩ :: o)
    else do
      let later ← valueLoop fuel ok b
      some (later.map fun o => ⟨type, size.toUInt32⟩ :: o)

def parseTransformValueList (b : List UInt8) : Option (Option (List TransformValue)) := valueLoop (b.length + 1) true b

def spiLoop (spiSize : ℕ) : ℕ → List UInt8 → Option (List (List UInt8))
  | 0, _ => some []
  | numSpi + 1, b =>
    if b.length < spiSize then none
    else (spiLoop spiSize numSpi (b.drop spiSize)).map fun o => b.take spiSize :: o

section Parsers

-- `SeIkeParsePayloadList`, which the payloads with lists call.
variable (parseList : UInt8 → List UInt8 → Option (Option (List Payload)))

def parseSaPayload (b : List UInt8) : Option (Option Payload) :=
  if b.length < 8 then some none
  else do
    let h ← slice b 0 8
    if get32 h 0 ≠ seIkeSaDoiIpsec then some none
    else if get32 h 4 ≠ seIkeSaSituationIdentity then some none
    else do
      let buf ← slice b 8 (b.length - 8)
      let o ← parseList seIkePayloadProposal buf
      some (some (.sa o))

def parseProposalPayload (b : List UInt8) : Option (Option Payload) :=
  if b.length < 4 then some none
  else do
    let h ← slice b 0 4
    let spiSize := (h.getD 2 0).toNat
    if b.length - 4 < spiSize then some none
    else do
      let spi ← slice b 4 spiSize
      let buf ← slice b (4 + spiSize) (b.length - 4 - spiSize)
      let o ← parseList seIkePayloadTransform buf
      some (some (.proposal (h.getD 0 0) (h.getD 1 0) spi o))

def parseTransformPayload (b : List UInt8) : Option (Option Payload) :=
  if b.length < 4 then some none
  else do
    let o ← parseTransformValueList (b.drop 4)
    some (some (.transform (b.getD 0 0) (b.getD 1 0) o))

def parseIdPayload (b : List UInt8) : Option Payload :=
  if b.length < 4 then none else some (.id (b.getD 0 0) (b.getD 1 0) (get16 b 2) (b.drop 4))

def parseCertPayload (b : List UInt8) : Option Payload :=
  if b.length < 1 then none else some (.cert (b.getD 0 0) (b.drop 1))

def parseCertRequestPayload (b : List UInt8) : Option Payload :=
  if b.length < 1 then none else some (.certRequest (b.getD 0 0) (b.drop 1))

def parseNoticePayload (b : List UInt8) : Option Payload :=
  if b.length < 8 then none
  else if get32 b 0 ≠ seIkeSaDoiIpsec then none
  else
    let spiSize := (b.getD 5 0).toNat
    if (b.drop 8).length < spiSize then none
    else some (.notice (b.getD 4 0) (get16 b 6) ((b.drop 8).take spiSize) ((b.drop 8).drop spiSize))

def parseDeletePayload (b : List UInt8) : Option Payload :=
  if b.length < 8 then none
  else if get32 b 0 ≠ seIkeSaDoiIpsec then none
  else (spiLoop (b.getD 5 0).toNat (get16 b 6).toNat (b.drop 8)).map (.delete (b.getD 4 0))

def parsePayload (payloadType : UInt8) (b : List UInt8) : Option (Option Payload) :=
  if payloadType = 1 then parseSaPayload parseList b
  else if payloadType = 2 then parseProposalPayload parseList b
  else if payloadType = 3 then parseTransformPayload b
  else if payloadType = 4 then some (some (.data .keyExchange b))
  else if payloadType = 5 then some (parseIdPayload b)
  else if payloadType = 6 then some (parseCertPayload b)
  else if payloadType = 7 then some (parseCertRequestPayload b)
  else if payloadType = 8 then some (some (.data .hash b))
  else if payloadType = 9 then some (some (.data .sign b))
  else if payloadType = 10 then some (some (.data .rand b))
  else if payloadType = 11 then some (parseNoticePayload b)
  else if payloadType = 12 then some (parseDeletePayload b)
  else some (some (.data .vendorId b))

end Parsers

/-- `SeIkeParsePayloadListEx`, with the bytes that it has read; `fuel` bounds its turns and how deep lists
are in each other. -/
def parsePayloadListEx : ℕ → UInt8 → List UInt8 → Option (Option (List Payload) × ℕ)
  | 0, _, _ => none
  | fuel + 1, payloadType, b =>
    if payloadType = seIkePayloadNone then some (some [], 0)
    else if b.length < 4 then some (none, 0)
    else if (get16 b 2).toNat < 4 then some (none, 4)
    else
      let payloadSize := (get16 b 2).toNat - 4
      if (b.drop 4).length < payloadSize then some (none, 4)
      else
        let payloadData := (b.drop 4).take payloadSize
        if isSupported payloadType then do
          let pay ← parsePayload
            (fun type data => do
              let (o, _) ← parsePayloadListEx fuel type data
              some o)
            payloadType payloadData
          match pay with
          | none => some (none, 4 + payloadSize)
          | some pay => do
              let (o, total) ← parsePayloadListEx fuel (b.getD 0 0) ((b.drop 4).drop payloadSize)
              some (o.map fun o => pay :: o, 4 + payloadSize + total)
        else do
          let (o, total) ← parsePayloadListEx fuel (b.getD 0 0) ((b.drop 4).drop payloadSize)
          some (o, 4 + payloadSize + total)

/-- `SeIkeParse`, with the `NextIv` if the decryption sets it. -/
def seIkeParse (fuel : ℕ) (decrypt : List UInt8 → Option (List UInt8 × List UInt8)) (data : List UInt8) :
    Option (Option Packet × Option (List UInt8)) :=
  if data.length < 28 then some (none, none)
  else do
    let h ← slice data 0 28
    let flag := h.getD 19 0
    let p : Packet := {
      initiatorCookie := fun i => h.getD i 0
      responderCookie := fun i => h.getD (8 + i) 0
      exchangeType := h.getD 18 0
      flagEncrypted := flag &&& 1 ≠ 0
      flagCommit := flag &&& 2 ≠ 0
      flagAuthOnly := flag &&& 4 ≠ 0
      messageId := get32 h 20
      payloadList := none
      decryptedPayload := none }
    let messageSize := (get32 h 24).toNat
    if data.length < messageSize ∨ messageSize < 28 then some (none, none)
    else do
      let payloadData ← slice data 28 (messageSize - 28)
      if p.flagEncrypted then
        match decrypt payloadData with
        | none => some (none, none)
        | some (buf, iv) => do
            let (o, total) ← parsePayloadListEx fuel (h.getD 16 0) buf
            some (some { p with
              payloadList := o, decryptedPayload := some (buf.take (min buf.length total)) }, some iv)
      else do
        let (o, _) ← parsePayloadListEx fuel (h.getD 16 0) payloadData
        some (some { p with payloadList := o, decryptedPayload := some payloadData }, none)

/-!
The parser of lists of IKE payloads always comes to an end and reads only what it was given, and it stops at
the last payload.
-/

open List
open ByteOrder (getD_take)

variable {b extra : List UInt8} {type : UInt8} {fuel : ℕ}

theorem slice_eq {start size : ℕ} (inside : start + size ≤ b.length) :
    slice b start size = some ((b.drop start).take size) := by
  unfold slice
  rw [if_pos inside]

theorem get32_take {i n : ℕ} (below : i + 3 < n) : get32 (b.take n) i = get32 b i := by
  unfold get32
  rw [getD_take _ (by omega), getD_take _ (by omega), getD_take _ (by omega), getD_take _ below]

theorem valueLoop_some (fuel : ℕ) : ∀ ok b, b.length < fuel → ∃ r, valueLoop fuel ok b = some r := by
  induction fuel with
  | zero =>
    intro ok b below
    omega
  | succ fuel ih =>
    intro ok b below
    match b with
    | [] => exact ⟨_, rfl⟩
    | [_] => exact ⟨_, rfl⟩
    | afBit :: type :: b =>
      rw [length_cons, length_cons] at below
      have left : (b.drop 2).length ≤ b.length := by
        rw [length_drop]
        omega
      rw [valueLoop]
      split
      · split
        · exact ⟨_, rfl⟩
        · obtain ⟨later, loops⟩ := ih (ok && 2 ≤ b.length)
            ((b.drop 2).drop (get16 b 0).toNat) (by rw [length_drop]; omega)
          rw [loops]
          exact ⟨_, rfl⟩
      · obtain ⟨later, loops⟩ := ih (ok && 2 ≤ b.length) (b.drop 2) (by omega)
        rw [loops]
        exact ⟨_, rfl⟩

def values (b : List UInt8) : Option (List TransformValue) := (parseTransformValueList b).getD none

theorem parseTransformValueList_eq (b : List UInt8) : parseTransformValueList b = some (values b) := by
  obtain ⟨r, loops⟩ := valueLoop_some (b.length + 1) true b (Nat.lt_succ_self _)
  unfold values parseTransformValueList
  rw [loops, Option.getD_some]

section Payloads

variable (lists : UInt8 → List UInt8 → Option (List Payload))

def readSa (b : List UInt8) : Option Payload :=
  if b.length < 8 ∨ get32 b 0 ≠ 1 ∨ get32 b 4 ≠ 1 then none else some (.sa (lists 2 (b.drop 8)))

def readProposal (b : List UInt8) : Option Payload :=
  if b.length < 4 ∨ b.length < 4 + (b.getD 2 0).toNat then none
  else some (.proposal (b.getD 0 0) (b.getD 1 0) ((b.drop 4).take (b.getD 2 0).toNat)
    (lists 3 (b.drop (4 + (b.getD 2 0).toNat))))

def readTransform (b : List UInt8) : Option Payload :=
  if b.length < 4 then none else some (.transform (b.getD 0 0) (b.getD 1 0) (values (b.drop 4)))

def readPayload (payloadType : UInt8) (b : List UInt8) : Option Payload :=
  if payloadType = 1 then readSa lists b
  else if payloadType = 2 then readProposal lists b
  else if payloadType = 3 then readTransform b
  else if payloadType = 4 then some (.data .keyExchange b)
  else if payloadType = 5 then parseIdPayload b
  else if payloadType = 6 then parseCertPayload b
  else if payloadType = 7 then parseCertRequestPayload b
  else if payloadType = 8 then some (.data .hash b)
  else if payloadType = 9 then some (.data .sign b)
  else if payloadType = 10 then some (.data .rand b)
  else if payloadType = 11 then parseNoticePayload b
  else if payloadType = 12 then parseDeletePayload b
  else some (.data .vendorId b)

variable {lists} {parseList : UInt8 → List UInt8 → Option (Option (List Payload))}

section

variable (agree : ∀ type d, d.length ≤ b.length → parseList type d = some (lists type d))
include agree

theorem parseSaPayload_eq : parseSaPayload parseList b = some (readSa lists b) := by
  unfold parseSaPayload readSa
  by_cases short : b.length < 8
  · rw [if_pos short, if_pos (.inl short)]
  · have whole : (b.drop 8).take (b.length - 8) = b.drop 8 :=
      take_of_length_le (Nat.le_of_eq length_drop)
    rw [if_neg short, slice_eq (by omega), slice_eq (by omega), whole, drop_zero,
      Option.bind_eq_bind, Option.bind_some, get32_take (by omega), get32_take (by omega)]
    by_cases doI : get32 b 0 ≠ 1
    · rw [if_pos (show get32 b 0 ≠ seIkeSaDoiIpsec from doI), if_pos (.inr (.inl doI))]
    · rw [if_neg (show ¬ get32 b 0 ≠ seIkeSaDoiIpsec from doI)]
      by_cases situation : get32 b 4 ≠ 1
      · rw [if_pos (show get32 b 4 ≠ seIkeSaSituationIdentity from situation), if_pos (.inr (.inr situation))]
      · rw [if_neg (show ¬ get32 b 4 ≠ seIkeSaSituationIdentity from situation), Option.bind_some,
          agree _ _ (by rw [length_drop]; omega),
          if_neg (by rintro (h | h | h); exacts [short h, doI h, situation h])]
        rfl

theorem parseProposalPayload_eq : parseProposalPayload parseList b = some (readProposal lists b) := by
  unfold parseProposalPayload readProposal
  by_cases short : b.length < 4
  · rw [if_pos short, if_pos (.inl short)]
  · rw [if_neg short, slice_eq (by omega), drop_zero, Option.bind_eq_bind, Option.bind_some]
    dsimp only
    rw [getD_take _ (by omega), getD_take _ (by omega), getD_take _ (by omega)]
    by_cases none' : b.length - 4 < (b.getD 2 0).toNat
    · rw [if_pos none', if_pos (.inr (by omega))]
    · have whole : (b.drop (4 + (b.getD 2 0).toNat)).take (b.length - 4 - (b.getD 2 0).toNat) =
          b.drop (4 + (b.getD 2 0).toNat) :=
        take_of_length_le (by rw [length_drop]; omega)
      rw [if_neg none', slice_eq (by omega), slice_eq (by omega), whole, Option.bind_some,
        Option.bind_some, agree _ _ (by rw [length_drop]; omega),
        if_neg (by omega)]
      rfl

end

theorem parseTransformPayload_eq : parseTransformPayload b = some (readTransform b) := by
  unfold parseTransformPayload readTransform
  split
  · rfl
  · rw [parseTransformValueList_eq]
    rfl

theorem parsePayload_eq
    (agree : ∀ type d, d.length ≤ b.length → parseList type d = some (lists type d)) (type : UInt8) :
    parsePayload parseList type b = some (readPayload lists type b) := by
  unfold parsePayload readPayload
  rw [parseSaPayload_eq agree, parseProposalPayload_eq agree, parseTransformPayload_eq]
  simp only [apply_ite some]

end Payloads

def turn (lists : UInt8 → List UInt8 → Option (List Payload) × ℕ) (payloadType : UInt8)
    (b : List UInt8) : Option (List Payload) × ℕ :=
  if payloadType = 0 then (some [], 0)
  else if b.length < 4 then (none, 0)
  else if (get16 b 2).toNat < 4 then (none, 4)
  else if (b.drop 4).length < (get16 b 2).toNat - 4 then (none, 4)
  else
    let payloadSize := (get16 b 2).toNat - 4
    let later := lists (b.getD 0 0) ((b.drop 4).drop payloadSize)
    if isSupported payloadType then
      match readPayload (fun type d => (lists type d).1) payloadType ((b.drop 4).take payloadSize) with
      | none => (none, 4 + payloadSize)
      | some pay => (later.1.map fun o => pay :: o, 4 + payloadSize + later.2)
    else (later.1, 4 + payloadSize + later.2)

theorem parsePayload_nested {lists : UInt8 → List UInt8 → Option (List Payload) × ℕ}
    (agree : ∀ type d, d.length ≤ b.length → parsePayloadListEx fuel type d = some (lists type d)) (type : UInt8) :
    parsePayload (fun type d => do let (o, _) ← parsePayloadListEx fuel type d; some o) type b =
      some (readPayload (fun type d => (lists type d).1) type b) := by
  refine parsePayload_eq (fun type d below => ?_) type
  rw [agree type d below]
  rfl

theorem parsePayloadListEx_succ {lists : UInt8 → List UInt8 → Option (List Payload) × ℕ}
    (agree : ∀ type d, d.length < b.length → parsePayloadListEx fuel type d = some (lists type d))
    (type : UInt8) : parsePayloadListEx (fuel + 1) type b = some (turn lists type b) := by
  rw [parsePayloadListEx, turn, show seIkePayloadNone = 0 from rfl]
  by_cases last : type = 0
  · rw [if_pos last, if_pos last]
  rw [if_neg last, if_neg last]
  by_cases short : b.length < 4
  · rw [if_pos short, if_pos short]
  rw [if_neg short, if_neg short]
  by_cases small : (get16 b 2).toNat < 4
  · rw [if_pos small, if_pos small]
  rw [if_neg small, if_neg small]
  dsimp only
  by_cases none' : (b.drop 4).length < (get16 b 2).toNat - 4
  · rw [if_pos none', if_pos none']
  rw [if_neg none', if_neg none']
  have rest : ((b.drop 4).drop ((get16 b 2).toNat - 4)).length < b.length := by
    rw [length_drop, length_drop]
    omega
  have inner : ((b.drop 4).take ((get16 b 2).toNat - 4)).length < b.length := by
    rw [length_take, length_drop]
    omega
  rw [parsePayload_nested (fun type d below => agree type d (by omega)) type, agree _ _ rest]
  cases supported : isSupported type with
  | false => rfl
  | true =>
    cases readPayload (fun type d => (lists type d).1) type ((b.drop 4).take ((get16 b 2).toNat - 4)) with
    | none => rfl
    | some pay => rfl

def parseList (type : UInt8) (b : List UInt8) : Option (List Payload) × ℕ :=
  (parsePayloadListEx (b.length + 1) type b).getD (none, 0)

theorem parsePayloadListEx_eq (n : ℕ) : ∀ fuel type b, b.length ≤ n → b.length < fuel →
    parsePayloadListEx fuel type b = some (parseList type b) := by
  induction n with
  | zero =>
    intro fuel type b empty enough
    obtain ⟨fuel, rfl⟩ := Nat.exists_eq_succ_of_ne_zero (Nat.ne_zero_of_lt enough)
    have agree : ∀ fuel' type d, d.length < b.length → parsePayloadListEx fuel' type d = some (parseList type d) := by
      intro fuel' type d below
      omega
    unfold parseList
    rw [parsePayloadListEx_succ (agree fuel), parsePayloadListEx_succ (agree b.length), Option.getD_some]
  | succ n ih =>
    intro fuel type b most enough
    obtain ⟨fuel, rfl⟩ := Nat.exists_eq_succ_of_ne_zero (Nat.ne_zero_of_lt enough)
    have agree : ∀ fuel', b.length ≤ fuel' → ∀ type d, d.length < b.length →
        parsePayloadListEx fuel' type d = some (parseList type d) := by
      intro fuel' above type d below
      exact ih fuel' type d (by omega) (by omega)
    have single := parsePayloadListEx_succ (agree b.length (Nat.le_refl _)) type
    unfold parseList
    rw [parsePayloadListEx_succ (agree fuel (by omega)), single, Option.getD_some]

theorem parseList_turn (type : UInt8) (b : List UInt8) : parseList type b = turn parseList type b := by
  have agree : ∀ type d, d.length < b.length → parsePayloadListEx b.length type d = some (parseList type d) :=
    fun type d below => parsePayloadListEx_eq d.length b.length type d (Nat.le_refl _) below
  have single := parsePayloadListEx_succ agree type
  have same := parsePayloadListEx_eq b.length (b.length + 1) type b (Nat.le_refl _) (Nat.lt_succ_self _)
  exact Option.some.inj (same.symm.trans single)

/-- The list ends, or what follows is too short for its header, or a payload is read. -/
theorem parseList_cases (type : UInt8) (b : List UInt8) :
    type = 0 ∧ parseList type b = (some [], 0) ∨
      (type ≠ 0 ∧ (b.length < 4 ∨ (get16 b 2).toNat < 4 ∨ b.length < (get16 b 2).toNat) ∧ (parseList type b).1 = none) ∨
        type ≠ 0 ∧ ¬b.length < 4 ∧ ¬(get16 b 2).toNat < 4 ∧ ¬(b.drop 4).length < (get16 b 2).toNat - 4 := by
  rw [parseList_turn, turn]
  by_cases last : type = 0
  · exact .inl ⟨last, if_pos last⟩
  rw [if_neg last]
  by_cases short : b.length < 4
  · exact .inr (.inl ⟨last, .inl short, by rw [if_pos short]⟩)
  rw [if_neg short]
  by_cases small : (get16 b 2).toNat < 4
  · exact .inr (.inl ⟨last, .inr (.inl small), by rw [if_pos small]⟩)
  rw [if_neg small]
  by_cases cut : (b.drop 4).length < (get16 b 2).toNat - 4
  · exact .inr (.inl ⟨last, .inr (.inr (by rw [length_drop] at cut; omega)), by rw [if_pos cut]⟩)
  · exact .inr (.inr ⟨last, short, small, cut⟩)

theorem parseList_append (n : ℕ) : ∀ type b, b.length ≤ n → (parseList type b).1 ≠ none →
    parseList type (b ++ extra) = parseList type b := by
  induction n using Nat.strongRecOn with
  | _ n ih =>
  intro type b most accepted
  rcases parseList_cases type b with ⟨rfl, ends⟩ | ⟨-, -, rejects⟩ | ⟨last, short, small, none'⟩
  · rw [ends, parseList_turn]
    exact if_pos rfl
  · exact absurd rejects accepted
  · have front : ∀ i, i < 4 → (b ++ extra).getD i 0 = b.getD i 0 := by
      intro i below
      rw [getD_append _ _ _ _ (by omega)]
    have size : get16 (b ++ extra) 2 = get16 b 2 := by
      unfold get16
      rw [front 2 (by omega), front 3 (by omega)]
    have dropped : (b ++ extra).drop 4 = b.drop 4 ++ extra := drop_append_of_le_length (by omega)
    rw [parseList_turn, turn, if_neg last, if_neg short, if_neg small, if_neg none'] at accepted
    rw [parseList_turn, parseList_turn type b, turn, turn, if_neg last, if_neg last, if_neg short,
      if_neg (by rw [length_append]; omega), size, front 0 (by omega), if_neg small, if_neg small, if_neg none', dropped,
      if_neg (by rw [length_append]; omega)]
    dsimp only at accepted ⊢
    rw [take_append_of_le_length (by omega), drop_append_of_le_length (by omega)]
    have later : (parseList (b.getD 0 0) ((b.drop 4).drop ((get16 b 2).toNat - 4))).1 ≠ none →
        parseList (b.getD 0 0) ((b.drop 4).drop ((get16 b 2).toNat - 4) ++ extra) =
          parseList (b.getD 0 0) ((b.drop 4).drop ((get16 b 2).toNat - 4)) :=
      ih (n - 1) (by omega) _ _ (by rw [length_drop, length_drop]; omega)
    cases supported : isSupported type with
    | false =>
      rw [supported, if_neg Bool.false_ne_true] at accepted
      rw [if_neg Bool.false_ne_true, if_neg Bool.false_ne_true, later accepted]
    | true =>
      rw [supported, if_pos rfl] at accepted
      rw [if_pos rfl, if_pos rfl]
      cases pay : readPayload (fun type d => (parseList type d).1) type
          ((b.drop 4).take ((get16 b 2).toNat - 4)) with
      | none => rfl
      | some pay' =>
        rw [pay] at accepted
        dsimp only at accepted ⊢
        rw [later]
        intro rejected
        rw [rejected] at accepted
        exact accepted rfl

end DisasVisor.Vpn.Ike
