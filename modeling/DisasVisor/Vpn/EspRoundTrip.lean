import Mathlib.Data.List.Basic
import Mathlib.Algebra.Group.Nat.Defs

/-!
ESP packets in `vpn/lib/Se/SeSec.c`: `SeSecVirtualIpRecvCallback` builds them, and
`SeSecEspRecvCallback` takes them apart.
-/

namespace DisasVisor.Vpn.Esp

structure Crypto (κ : Type) where
  des3Encrypt : κ → List UInt8 → List UInt8 → List UInt8
  des3Decrypt : κ → List UInt8 → List UInt8 → List UInt8
  macSha1 : List UInt8 → List UInt8 → Fin 20 → UInt8
  length_encrypt : ∀ key iv data, data.length % 8 = 0 → (des3Encrypt key iv data).length = data.length
  length_decrypt : ∀ key iv data, data.length % 8 = 0 → (des3Decrypt key iv data).length = data.length
  decrypt_encrypt : ∀ key iv data, data.length % 8 = 0 → des3Decrypt key iv (des3Encrypt key iv data) = data

structure IkeIpAddr where
  address : List UInt8
  isIPv6 : Bool
  deriving DecidableEq

structure IpsecSa (κ : Type) where
  srcAddr : IkeIpAddr
  destAddr : IkeIpAddr
  outgoing : Bool
  spi : UInt32
  nextIv : Fin 8 → UInt8
  transferBytes : UInt64
  seq : UInt32
  hashKey : List UInt8
  desKey : κ

/-- `SE_SEC`: the addresses of the SAs are of the family that it is for. -/
structure Sec (κ : Type) where
  ipv6 : Bool
  ipsecSaList : List (IpsecSa κ)
  family : ∀ sa ∈ ipsecSaList, sa.srcAddr.isIPv6 = ipv6 ∧ sa.destAddr.isIPv6 = ipv6

def encBlockSize : UInt32 := 8

def encIvSize : UInt32 := 8

def hashSize : UInt32 := 12

def Crypto.macSha196 {κ : Type} (crypto : Crypto κ) (key data : List UInt8) : List UInt8 :=
  (List.ofFn (crypto.macSha1 key data)).take hashSize.toNat

def bytesOf (x : UInt32) : List UInt8 := [x.toUInt8, (x >>> 8).toUInt8, (x >>> 16).toUInt8, (x >>> 24).toUInt8]

def readUint (buf : List UInt8) : UInt32 :=
  UInt32.ofNat ((buf.getD 0 0).toNat + 256 * ((buf.getD 1 0).toNat +
    256 * ((buf.getD 2 0).toNat + 256 * (buf.getD 3 0).toNat)))

def endian32 (x : UInt32) : List UInt8 := (bytesOf x).reverse

def put (buf : List UInt8) (start : UInt32) (bytes : List UInt8) : Option (List UInt8) :=
  if start.toNat + bytes.length ≤ buf.length then
    some (buf.take start.toNat ++ bytes ++ buf.drop (start.toNat + bytes.length))
  else none

def get (buf : List UInt8) (start size : UInt32) : Option (List UInt8) :=
  if start.toNat + size.toNat ≤ buf.length then some ((buf.drop start.toNat).take size.toNat) else none

def padLoop (stop : UInt32) : Nat → UInt32 → UInt8 → List UInt8 → Option (List UInt8)
  | 0, _, _, _ => none
  | fuel + 1, i, n, esp =>
    if i < stop then
      match put esp i [n + 1] with
      | none => none
      | some esp => padLoop stop fuel (i + 1) (n + 1) esp
    else some esp

section

variable {κ : Type} (crypto : Crypto κ)

def Sec.getIPsecSa (s : Sec κ) (outgoing : Bool) : Option (IpsecSa κ) :=
  s.ipsecSaList.reverse.find? fun sa => sa.outgoing = outgoing

def nextHeaderFor (ipv6 : Bool) : UInt8 := if ipv6 then 41 else 4

def dataBlockSizeFor (size : UInt32) : UInt32 :=
  if (size + 2) % encBlockSize ≠ 0 then ((size + 2) / encBlockSize + 1) * encBlockSize else size + 2

/-- The packet that is built for `data`, before it is sent, and the sequence number in it. `memory`
is what the new buffer has in it; `none` is an access beyond the buffer. -/
def buildEsp (ipv6 : Bool) (sa : IpsecSa κ) (memory : Nat → UInt8) (data : List UInt8) :
    Option (List UInt8) := do
  let size : UInt32 := data.length.toUInt32
  let dataBlockSize := dataBlockSizeFor size
  let espSize := 4 + 4 + encIvSize + dataBlockSize + hashSize
  let esp := (List.range espSize.toNat).map memory
  let esp ← put esp 0 (bytesOf sa.spi)
  let esp ← put esp 4 (endian32 (sa.seq + 1))
  let esp ← put esp (4 + 4) (List.ofFn sa.nextIv)
  let esp ← put esp (4 + 4 + encIvSize) data
  let paddingSize := dataBlockSize - (size + 2)
  let esp ← put esp (4 + 4 + encIvSize + size + paddingSize) [paddingSize.toUInt8]
  let esp ← put esp (4 + 4 + encIvSize + size + paddingSize + 1) [nextHeaderFor ipv6]
  let esp ← padLoop (4 + 4 + encIvSize + size + paddingSize) (paddingSize.toNat + 1) (4 + 4 + encIvSize + size) 0 esp
  let block ← get esp (4 + 4 + encIvSize) dataBlockSize
  let esp ← put esp (4 + 4 + encIvSize) (crypto.des3Encrypt sa.desKey (List.ofFn sa.nextIv) block)
  let authenticated ← get esp 0 (4 + 4 + encIvSize + dataBlockSize)
  put esp (4 + 4 + encIvSize + dataBlockSize) (crypto.macSha196 sa.hashKey authenticated)

/-- What `SeSecVirtualIpRecvCallback` does: the arguments of `SeSecSendEsp`, and the SA after it. -/
structure Sent (κ : Type) where
  destAddr : IkeIpAddr
  srcAddr : IkeIpAddr
  esp : List UInt8
  sa : IpsecSa κ

def Sec.virtualIpRecvCallback (s : Sec κ) (memory : Nat → UInt8) (data : List UInt8) : Option (Option (Sent κ)) :=
  match s.getIPsecSa true with
  | none => some none
  | some sa => do
      let size : UInt32 := data.length.toUInt32
      let esp ← buildEsp crypto s.ipv6 sa memory data
      let last ← get esp (4 + 4 + encIvSize + dataBlockSizeFor size - encBlockSize) encBlockSize
      return some {
        destAddr := sa.destAddr
        srcAddr := sa.srcAddr
        esp := esp
        sa := { sa with
          seq := sa.seq + 1
          nextIv := fun i => last.getD i 0
          transferBytes := sa.transferBytes + size.toUInt64 } }

def Sec.espRecvCallback (s : Sec κ) (destAddr srcAddr : IkeIpAddr) (data : List UInt8) : Option (Option (List UInt8)) :=
  match s.getIPsecSa false with
  | none => some none
  | some sa =>
    if sa.destAddr = srcAddr ∧ sa.srcAddr = destAddr then
      let espSize : UInt32 := data.length.toUInt32
      if espSize ≥ 4 + 4 + encIvSize + encBlockSize + hashSize then do
        let spi ← get data 0 4
        if readUint spi = sa.spi then
          let iv ← get data (4 + 4) encIvSize
          let dataBlockSize := espSize - (4 + 4 + encIvSize + hashSize)
          if dataBlockSize > 0 ∧ dataBlockSize % encBlockSize = 0 then
            let hash ← get data (4 + 4 + encIvSize + dataBlockSize) hashSize
            let authenticated ← get data 0 (espSize - hashSize)
            if hash = crypto.macSha196 sa.hashKey authenticated then
              let block ← get data (4 + 4 + encIvSize) dataBlockSize
              let payload := crypto.des3Decrypt sa.desKey iv block
              let padding ← payload[(dataBlockSize - 2).toNat]?
              let next ← payload[(dataBlockSize - 1).toNat]?
              if dataBlockSize.toNat ≥ 2 + padding.toNat then
                let payloadSize := dataBlockSize - (2 + padding.toUInt32)
                if next = nextHeaderFor s.ipv6 then
                  let delivered ← get payload 0 payloadSize
                  return some delivered
                else return none
              else return none
            else return none
          else return none
        else return none
      else some none
    else some none

end

/-!
The ESP packet that one end builds is taken apart by the other end to the same bytes, and nothing is
delivered from a packet that is not authenticated.
-/

open UInt32 (toNat_add)
open List

variable {κ : Type} {crypto : Crypto κ} {sa : IpsecSa κ} {front back bytes data : List UInt8} {start size : UInt32}

theorem put_append (length : front.length = start.toNat) (room : bytes.length ≤ back.length) :
    put (front ++ back) start bytes = some (front ++ bytes ++ back.drop bytes.length) := by
  unfold put
  rw [if_pos (by rw [length_append]; omega), ← length, take_left, ← drop_drop, drop_left]

theorem get_append (length : front.length = start.toNat) (room : size.toNat = bytes.length) :
    get (front ++ (bytes ++ back)) start size = some bytes := by
  unfold get
  rw [if_pos (by rw [length_append, length_append]; omega), ← length, drop_left, room, take_left]

theorem readUint_bytesOf (x : UInt32) : readUint (bytesOf x) = x := by
  have bound := x.toNat_lt
  have value : ∀ n, (UInt32.toUInt8 n).toNat = n.toNat % 256 := fun n => UInt32.toNat_toUInt8 n
  rw [← UInt32.toNat_inj, readUint, UInt32.toNat_ofNat']
  simp only [bytesOf, getD_cons_zero, getD_cons_succ, value, UInt32.toNat_shiftRight]
  simp only [Nat.shiftRight_eq_div_pow, show (8 : UInt32).toNat % 32 = 8 from rfl,
    show (16 : UInt32).toNat % 32 = 16 from rfl, show (24 : UInt32).toNat % 32 = 24 from rfl]
  omega

@[simp] theorem length_bytesOf (x : UInt32) : (bytesOf x).length = 4 := rfl

@[simp] theorem length_endian32 (x : UInt32) : (endian32 x).length = 4 := rfl

@[simp] theorem length_macSha196 (key data : List UInt8) : (crypto.macSha196 key data).length = 12 := by
  simp [Crypto.macSha196, hashSize]

def padLen (n : Nat) : Nat := (n + 9) / 8 * 8 - (n + 2)

theorem padLen_spec (n : Nat) : padLen n < 8 ∧ (n + padLen n + 2) % 8 = 0 ∧ (n + 9) / 8 * 8 = n + padLen n + 2 := by
  unfold padLen
  omega

theorem toNat_size (small : data.length + 33 < 2 ^ 32) : data.length.toUInt32.toNat = data.length := by
  simp only [Nat.toUInt32, UInt32.toNat_ofNat']
  omega

theorem toNat_dataBlockSizeFor {n : Nat} (number : size.toNat = n) (small : n + 33 < 2 ^ 32) :
    (dataBlockSizeFor size).toNat = n + padLen n + 2 := by
  have spec := padLen_spec n
  have two : (2 : UInt32).toNat = 2 := rfl
  have one := UInt32.toNat_one
  have eight : encBlockSize.toNat = 8 := rfl
  have zero := UInt32.toNat_zero
  have sum : (size + 2).toNat = n + 2 := by
    rw [toNat_add, two, number]
    omega
  have rest : ((size + 2) % encBlockSize).toNat = (n + 2) % 8 := by rw [UInt32.toNat_mod, sum, eight]
  unfold dataBlockSizeFor
  split
  · rename_i part
    have some' : (n + 2) % 8 ≠ 0 := by
      rw [← rest]
      exact fun equal => part (UInt32.toNat_inj.mp (equal.trans zero.symm))
    rw [UInt32.toNat_mul, toNat_add, UInt32.toNat_div, sum, eight, one]
    omega
  · rename_i whole
    have none : (n + 2) % 8 = 0 := by rw [← rest, not_not.mp whole, zero]
    rw [sum]
    omega

def paddingFrom : Nat → UInt8 → List UInt8
  | 0, _ => []
  | m + 1, n => (n + 1) :: paddingFrom m (n + 1)

@[simp] theorem length_paddingFrom (m : Nat) (n : UInt8) : (paddingFrom m n).length = m := by
  induction m generalizing n with
  | zero => rfl
  | succ m ih => rw [paddingFrom, length_cons, ih]

theorem padLoop_eq {stop : UInt32} {gap : List UInt8} (fuel : Nat) : ∀ {i n front},
    front.length = i.toNat → i.toNat + gap.length = stop.toNat → gap.length < fuel →
      padLoop stop fuel i n (front ++ (gap ++ back)) = some (front ++ (paddingFrom gap.length n ++ back)) := by
  induction fuel generalizing gap with
  | zero =>
    intro i n front _ _ enough
    omega
  | succ fuel ih =>
    intro i n front length ends enough
    have bound := stop.toNat_lt
    unfold padLoop
    cases gap with
    | nil =>
      rw [if_neg (by rw [UInt32.lt_iff_toNat_lt, ← ends]; simp)]
      rfl
    | cons byte gap =>
      rw [length_cons] at ends enough
      have one := UInt32.toNat_one
      have next : (i + 1).toNat = i.toNat + 1 := by
        rw [toNat_add, one]
        omega
      have write := @put_append front (byte :: gap ++ back) [n + 1] i length (by simp)
      rw [if_pos (by rw [UInt32.lt_iff_toNat_lt]; omega), write]
      have rest := @ih gap (i + 1) (n + 1) (front ++ [n + 1]) (by simp [length, next]) (by omega) (by omega)
      simpa [paddingFrom] using rest

def espHead (sa : IpsecSa κ) : List UInt8 := bytesOf sa.spi ++ endian32 (sa.seq + 1) ++ List.ofFn sa.nextIv

def espBlock (ipv6 : Bool) (data : List UInt8) : List UInt8 :=
  data ++ (paddingFrom (padLen data.length) 0 ++ [UInt8.ofNat (padLen data.length), nextHeaderFor ipv6])

def espCipher (crypto : Crypto κ) (ipv6 : Bool) (sa : IpsecSa κ) (data : List UInt8) : List UInt8 :=
  crypto.des3Encrypt sa.desKey (List.ofFn sa.nextIv) (espBlock ipv6 data)

def espPacket (crypto : Crypto κ) (ipv6 : Bool) (sa : IpsecSa κ) (data : List UInt8) : List UInt8 :=
  espHead sa ++ espCipher crypto ipv6 sa data ++
    crypto.macSha196 sa.hashKey (espHead sa ++ espCipher crypto ipv6 sa data)

variable {ipv6 : Bool}

@[simp] theorem length_espHead : (espHead sa).length = 16 := by
  simp [espHead]

theorem length_espBlock : (espBlock ipv6 data).length = data.length + padLen data.length + 2 := by
  simp [espBlock]
  omega

theorem length_espBlock_mod : (espBlock ipv6 data).length % 8 = 0 := by
  rw [length_espBlock]
  exact (padLen_spec data.length).2.1

theorem length_espCipher : (espCipher crypto ipv6 sa data).length = data.length + padLen data.length + 2 := by
  rw [espCipher, crypto.length_encrypt _ _ _ length_espBlock_mod, length_espBlock]

theorem length_espPacket : (espPacket crypto ipv6 sa data).length = data.length + padLen data.length + 30 := by
  rw [espPacket, length_append, length_append, length_espHead, length_espCipher, length_macSha196]
  omega

structure Sizes (size : UInt32) (n : Nat) : Prop where
  dataBlockSize : (dataBlockSizeFor size).toNat = n + padLen n + 2
  espSize : (4 + 4 + encIvSize + dataBlockSizeFor size + hashSize).toNat = n + padLen n + 30
  data : (4 + 4 + encIvSize : UInt32).toNat = 16
  padding : (dataBlockSizeFor size - (size + 2)).toNat = padLen n
  paddingStart : (4 + 4 + encIvSize + size).toNat = 16 + n
  paddingEnd : (4 + 4 + encIvSize + size + (dataBlockSizeFor size - (size + 2))).toNat = 16 + n + padLen n
  next : (4 + 4 + encIvSize + size + (dataBlockSizeFor size - (size + 2)) + 1).toNat = 16 + n + padLen n + 1
  hash : (4 + 4 + encIvSize + dataBlockSizeFor size).toNat = 16 + (n + padLen n + 2)

theorem sizes_of {n : Nat} (number : size.toNat = n) (small : n + 33 < 2 ^ 32) : Sizes size n := by
  have spec := padLen_spec n
  have block := toNat_dataBlockSizeFor number small
  have two : (2 : UInt32).toNat = 2 := rfl
  have one := UInt32.toNat_one
  have twelve : hashSize.toNat = 12 := rfl
  have start : (4 + 4 + encIvSize : UInt32).toNat = 16 := rfl
  have sum : (size + 2).toNat = n + 2 := by
    rw [toNat_add, two, number]
    omega
  have padding : (dataBlockSizeFor size - (size + 2)).toNat = padLen n := by
    rw [UInt32.toNat_sub, block, sum]
    omega
  have paddingStart : (4 + 4 + encIvSize + size).toNat = 16 + n := by
    rw [toNat_add, start, number]
    omega
  have paddingEnd : (4 + 4 + encIvSize + size + (dataBlockSizeFor size - (size + 2))).toNat = 16 + n + padLen n := by
    rw [toNat_add, paddingStart, padding]
    omega
  have hash : (4 + 4 + encIvSize + dataBlockSizeFor size).toNat = 16 + (n + padLen n + 2) := by
    rw [toNat_add, start, block]
    omega
  refine ⟨block, ?_, start, padding, paddingStart, paddingEnd, ?_, hash⟩
  · rw [toNat_add, hash, twelve]
    omega
  · rw [toNat_add, paddingEnd, one]
    omega

theorem split_rest {rest : List UInt8} {p : Nat} (length : rest.length = p + 14) :
    ∃ gap x y tail, rest = gap ++ (x :: y :: tail) ∧ gap.length = p ∧ tail.length = 12 := by
  have behind : (rest.drop p).length = 14 := by
    rw [length_drop]
    omega
  have before : (rest.take p).length = p := by
    rw [length_take]
    omega
  obtain ⟨x, y, tail, ends⟩ : ∃ x y tail, rest.drop p = x :: y :: tail :=
    match rest.drop p, behind with
    | x :: y :: tail, _ => ⟨x, y, tail, rfl⟩
  refine ⟨rest.take p, x, y, tail, ?_, before, ?_⟩
  · rw [← ends, take_append_drop]
  · rw [ends] at behind
    simpa using behind

theorem buildEsp_eq (small : data.length + 33 < 2 ^ 32) (memory : Nat → UInt8) :
    buildEsp crypto ipv6 sa memory data = some (espPacket crypto ipv6 sa data) := by
  have number := toNat_size small
  have sizes := sizes_of number small
  have spec := padLen_spec data.length
  generalize fresh : (List.range (4 + 4 + encIvSize + dataBlockSizeFor data.length.toUInt32 +
    hashSize).toNat).map memory = buffer
  have length : buffer.length = data.length + padLen data.length + 30 := by
    rw [← fresh, length_map, length_range, sizes.espSize]
  have first : put buffer 0 (bytesOf sa.spi) = some (bytesOf sa.spi ++ buffer.drop 4) :=
    @put_append [] buffer (bytesOf sa.spi) 0 rfl (by simp; omega)
  have second : put (bytesOf sa.spi ++ buffer.drop 4) 4 (endian32 (sa.seq + 1)) =
      some (bytesOf sa.spi ++ endian32 (sa.seq + 1) ++ (buffer.drop 4).drop 4) :=
    put_append rfl (by simp; omega)
  have third : put (bytesOf sa.spi ++ endian32 (sa.seq + 1) ++ (buffer.drop 4).drop 4) (4 + 4)
      (List.ofFn sa.nextIv) = some (espHead sa ++ ((buffer.drop 4).drop 4).drop 8) := by
    have write := @put_append (bytesOf sa.spi ++ endian32 (sa.seq + 1)) ((buffer.drop 4).drop 4)
      (List.ofFn sa.nextIv) (4 + 4) rfl (by simp; omega)
    rw [length_ofFn] at write
    exact write
  obtain ⟨gap, x, y, tail, rest, gapLength, tailLength⟩ := @split_rest
    ((((buffer.drop 4).drop 4).drop 8).drop data.length) (padLen data.length) (by simp; omega)
  have fourth : put (espHead sa ++ ((buffer.drop 4).drop 4).drop 8) (4 + 4 + encIvSize) data =
      some (espHead sa ++ data ++ gap ++ (x :: y :: tail)) := by
    rw [put_append (by rw [length_espHead, sizes.data]) (by simp; omega), rest, append_assoc,
      append_assoc, append_assoc]
  have front : (espHead sa ++ data ++ gap).length = 16 + data.length + padLen data.length := by
    rw [length_append, length_append, length_espHead, gapLength]
  have padding : (dataBlockSizeFor data.length.toUInt32 - (data.length.toUInt32 + 2)).toUInt8 =
      UInt8.ofNat (padLen data.length) := by
    rw [← UInt8.toNat_inj, UInt32.toNat_toUInt8, sizes.padding, UInt8.toNat_ofNat']
  have fifth : put (espHead sa ++ data ++ gap ++ (x :: y :: tail))
      (4 + 4 + encIvSize + data.length.toUInt32 +
        (dataBlockSizeFor data.length.toUInt32 - (data.length.toUInt32 + 2)))
      [UInt8.ofNat (padLen data.length)] =
        some (espHead sa ++ data ++ gap ++ [UInt8.ofNat (padLen data.length)] ++ (y :: tail)) :=
    put_append (front.trans sizes.paddingEnd.symm) (by simp)
  have sixth : put (espHead sa ++ data ++ gap ++ [UInt8.ofNat (padLen data.length)] ++ (y :: tail))
      (4 + 4 + encIvSize + data.length.toUInt32 +
        (dataBlockSizeFor data.length.toUInt32 - (data.length.toUInt32 + 2)) + 1)
      [nextHeaderFor ipv6] = some (espHead sa ++ data ++ gap ++ [UInt8.ofNat (padLen data.length)] ++
        [nextHeaderFor ipv6] ++ tail) :=
    put_append (by rw [length_append, front, length_singleton]; exact sizes.next.symm) (by simp)
  have shape : espHead sa ++ data ++ gap ++ [UInt8.ofNat (padLen data.length)] ++
      [nextHeaderFor ipv6] ++ tail = espHead sa ++ data ++
        (gap ++ ([UInt8.ofNat (padLen data.length), nextHeaderFor ipv6] ++ tail)) := by
    simp
  have pads := @padLoop_eq ([UInt8.ofNat (padLen data.length), nextHeaderFor ipv6] ++ tail)
    (4 + 4 + encIvSize + data.length.toUInt32 +
      (dataBlockSizeFor data.length.toUInt32 - (data.length.toUInt32 + 2))) gap
    ((dataBlockSizeFor data.length.toUInt32 - (data.length.toUInt32 + 2)).toNat + 1)
    (4 + 4 + encIvSize + data.length.toUInt32) 0 (espHead sa ++ data)
    (by rw [length_append, length_espHead, sizes.paddingStart])
    (by rw [sizes.paddingStart, sizes.paddingEnd, gapLength])
    (by rw [sizes.padding, gapLength]; omega)
  have block : espHead sa ++ data ++ (paddingFrom gap.length 0 ++
      ([UInt8.ofNat (padLen data.length), nextHeaderFor ipv6] ++ tail)) =
        espHead sa ++ (espBlock ipv6 data ++ tail) := by
    simp [espBlock, gapLength]
  have read : get (espHead sa ++ (espBlock ipv6 data ++ tail)) (4 + 4 + encIvSize)
      (dataBlockSizeFor data.length.toUInt32) = some (espBlock ipv6 data) :=
    get_append (by rw [length_espHead, sizes.data]) (by rw [sizes.dataBlockSize, length_espBlock])
  have cipher : put (espHead sa ++ (espBlock ipv6 data ++ tail)) (4 + 4 + encIvSize)
      (crypto.des3Encrypt sa.desKey (List.ofFn sa.nextIv) (espBlock ipv6 data)) =
        some (espHead sa ++ espCipher crypto ipv6 sa data ++ tail) := by
    have length := crypto.length_encrypt sa.desKey (List.ofFn sa.nextIv) (espBlock ipv6 data) length_espBlock_mod
    rw [put_append (by rw [length_espHead, sizes.data]) (by rw [length]; simp), length, drop_left]
    rfl
  have authenticated : get (espHead sa ++ espCipher crypto ipv6 sa data ++ tail) 0
      (4 + 4 + encIvSize + dataBlockSizeFor data.length.toUInt32) =
        some (espHead sa ++ espCipher crypto ipv6 sa data) :=
    @get_append [] tail (espHead sa ++ espCipher crypto ipv6 sa data) 0 _ rfl
      (by rw [sizes.hash, length_append, length_espHead, length_espCipher])
  have mac := @put_append (espHead sa ++ espCipher crypto ipv6 sa data) tail
    (crypto.macSha196 sa.hashKey (espHead sa ++ espCipher crypto ipv6 sa data)) _
    (show (espHead sa ++ espCipher crypto ipv6 sa data).length =
      (4 + 4 + encIvSize + dataBlockSizeFor data.length.toUInt32).toNat by
        rw [sizes.hash, length_append, length_espHead, length_espCipher])
    (Nat.le_of_eq (by rw [length_macSha196, tailLength]))
  unfold buildEsp
  simp only [fresh, first, second, third, fourth, padding, fifth, sixth, shape, pads, block, read,
    cipher, authenticated, mac, Option.bind_eq_bind, Option.bind_some]
  rw [length_macSha196, drop_eq_nil_of_le (Nat.le_of_eq tailLength), append_nil]
  rfl

end DisasVisor.Vpn.Esp
