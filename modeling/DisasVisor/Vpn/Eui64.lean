import DisasVisor.Vpn.Ip6Packets

/-!
The addresses that `vpn/lib/Se/SeIp6.c` makes from a MAC address. Both copies of `Se6GenerateEui64Address`
take the first three bytes of it.
-/

namespace DisasVisor.Vpn.Ip6

abbrev Mac := Fin 6 → UInt8

def seCopy (dst : List UInt8) (start : Nat) (src : List UInt8) (size : Nat) : List UInt8 :=
  dst.take start ++ src.take size ++ dst.drop (start + size)

def se6GenerateEui64Address (dst mac : List UInt8) : List UInt8 :=
  let dst := seCopy dst 0 mac 3
  let dst := seCopy dst 5 mac 3
  let dst := (dst.set 3 0xff).set 4 0xfe
  dst.set 0 ((~~~(dst.getD 0 0 &&& 0x02) &&& 0x02) ||| (dst.getD 0 0 &&& 0xfd))

def ofBytes (bytes : List UInt8) : Addr := fun i => bytes.getD i 0

def se6And (a b : Addr) : Addr := fun i => a i &&& b i

def se6Or (a b : Addr) : Addr := fun i => a i ||| b i

def se6Not (a : Addr) : Addr := fun i => ~~~a i

/-- `Se6GenerateEui64LocalAddress`; `tmp` is what is in the buffer before. -/
def se6GenerateEui64LocalAddress (tmp : Fin 8 → UInt8) (mac : Mac) : Addr :=
  let tmp := se6GenerateEui64Address (List.ofFn tmp) (List.ofFn mac)
  let a := ((List.replicate 16 0).set 0 0xfe).set 1 0x80
  ofBytes (seCopy a 8 tmp 8)

def se6GenerateEui64GlobalAddress (tmp : Fin 8 → UInt8) (pre subnet : Addr) (mac : Mac) : Addr :=
  let tmp := se6GenerateEui64Address (List.ofFn tmp) (List.ofFn mac)
  let a := ofBytes (seCopy (List.replicate 16 0) 8 tmp 8)
  se6Or (se6And a (se6Not subnet)) (se6And pre subnet)

def se6GenerateSubnetMask (i : UInt32) : Addr :=
  let j := i.toNat / 8
  let k := i.toNat % 8
  fun z => if z.val < j then 0xff else if z.val = j then ~~~((0xff : UInt8) >>> UInt8.ofNat k) else 0

/-- The modified EUI-64 identifier: the two halves of the MAC address around `FF FE`, with the
universal bit inverted. -/
def modifiedEui64 (mac : Mac) : Fin 8 → UInt8 :=
  fun i => [mac 0 ^^^ 0x02, mac 1, mac 2, 0xff, 0xfe, mac 3, mac 4, mac 5].getD i 0

def interfaceId (a : Addr) : Fin 8 → UInt8 := fun i => a (i.natAdd 8)

def LinkLocal (a : Addr) : Prop := a 0 = 0xfe ∧ a 1 = 0x80 ∧ ∀ i : Fin 16, 2 ≤ i.val → i.val < 8 → a i = 0

def Inside (a pre subnet : Addr) : Prop := se6And a subnet = se6And pre subnet

def Repeats (mac : Mac) : Prop := mac 3 = mac 0 ∧ mac 4 = mac 1 ∧ mac 5 = mac 2

def SameVendor (first second : Mac) : Prop := first 0 = second 0 ∧ first 1 = second 1 ∧ first 2 = second 2

variable {tmp : Fin 8 → UInt8} {pre subnet : Addr} {mac first second : Mac}

theorem inverted (b : UInt8) : (~~~(b &&& 0x02) &&& 0x02) ||| (b &&& 0xfd) = b ^^^ 0x02 := by
  have every : ∀ n < 256, (~~~(UInt8.ofNat n &&& 0x02) &&& 0x02) ||| (UInt8.ofNat n &&& 0xfd) =
      UInt8.ofNat n ^^^ 0x02 := by decide +kernel
  have this := every b.toNat b.toNat_lt
  rwa [UInt8.ofNat_toNat] at this

theorem se6GenerateEui64Address_eq (tmp : Fin 8 → UInt8) (mac : Mac) :
    se6GenerateEui64Address (List.ofFn tmp) (List.ofFn mac) =
      [mac 0 ^^^ 0x02, mac 1, mac 2, 0xff, 0xfe, mac 0, mac 1, mac 2] := by
  rw [← inverted]
  rfl

theorem local_eq (tmp : Fin 8 → UInt8) (mac : Mac) : se6GenerateEui64LocalAddress tmp mac =
    ofBytes [0xfe, 0x80, 0, 0, 0, 0, 0, 0, mac 0 ^^^ 0x02, mac 1, mac 2, 0xff, 0xfe, mac 0, mac 1, mac 2] := by
  simp only [se6GenerateEui64LocalAddress, se6GenerateEui64Address_eq]
  rfl

theorem mask_low {length : UInt32} (short : length.toNat ≤ 64) (i : Fin 8) :
    se6GenerateSubnetMask length (i.natAdd 8) = 0 := by
  have place : (i.natAdd 8 : Fin 16).val = 8 + i.val := rfl
  simp only [se6GenerateSubnetMask, place]
  rw [if_neg (by omega)]
  split
  · rename_i last
    have whole : length.toNat % 8 = 0 := by omega
    rw [whole]
    rfl
  · rfl

theorem ofBytes_low {front low : List UInt8} (eight : front.length = 8) (i : Fin 8) :
    ofBytes (front ++ low) (i.natAdd 8) = low.getD i 0 := by
  have place : (i.natAdd 8 : Fin 16).val = 8 + i.val := rfl
  rw [ofBytes, place, List.getD_eq_getElem?_getD, List.getElem?_append_right (by omega), eight, Nat.add_sub_cancel_left,
    ← List.getD_eq_getElem?_getD]

theorem interfaceId_local (tmp : Fin 8 → UInt8) (mac : Mac) :
    interfaceId (se6GenerateEui64LocalAddress tmp mac) =
      fun i : Fin 8 => [mac 0 ^^^ 0x02, mac 1, mac 2, 0xff, 0xfe, mac 0, mac 1, mac 2].getD i 0 := by
  funext i
  rw [local_eq]
  exact @ofBytes_low [0xfe, 0x80, 0, 0, 0, 0, 0, 0] _ rfl i

theorem global_low {length : UInt32} (short : length.toNat ≤ 64) (tmp : Fin 8 → UInt8) (pre : Addr) (mac : Mac) :
    interfaceId (se6GenerateEui64GlobalAddress tmp pre (se6GenerateSubnetMask length) mac) =
      interfaceId (se6GenerateEui64LocalAddress tmp mac) := by
  funext i
  have zero := mask_low short i
  have low := @ofBytes_low (List.replicate 8 0)
    [mac 0 ^^^ 0x02, mac 1, mac 2, 0xff, 0xfe, mac 0, mac 1, mac 2] List.length_replicate i
  have copied : seCopy (List.replicate 16 0) 8 [mac 0 ^^^ 0x02, mac 1, mac 2, 0xff, 0xfe, mac 0, mac 1, mac 2] 8 =
      List.replicate 8 0 ++ [mac 0 ^^^ 0x02, mac 1, mac 2, 0xff, 0xfe, mac 0, mac 1, mac 2] := rfl
  rw [interfaceId_local]
  simp only [interfaceId, se6GenerateEui64GlobalAddress, se6Or, se6And, se6Not, zero, se6GenerateEui64Address_eq,
    copied, low]
  simp

theorem identifier_iff (tmp : Fin 8 → UInt8) (mac : Mac) :
    interfaceId (se6GenerateEui64LocalAddress tmp mac) = modifiedEui64 mac ↔ Repeats mac := by
  rw [interfaceId_local]
  constructor
  · intro same
    exact ⟨(congrFun same 5).symm, (congrFun same 6).symm, (congrFun same 7).symm⟩
  · rintro ⟨third, fourth, fifth⟩
    funext i
    simp only [modifiedEui64, third, fourth, fifth]

theorem local_iff (tmp tmp' : Fin 8 → UInt8) (first second : Mac) :
    se6GenerateEui64LocalAddress tmp first = se6GenerateEui64LocalAddress tmp' second ↔ SameVendor first second := by
  constructor
  · intro same
    have low := congrArg interfaceId same
    rw [interfaceId_local, interfaceId_local] at low
    exact ⟨congrFun low 5, congrFun low 6, congrFun low 7⟩
  · rintro ⟨a, b, c⟩
    rw [local_eq, local_eq, a, b, c]

theorem global_iff {length : UInt32} (short : length.toNat ≤ 64) (tmp tmp' : Fin 8 → UInt8) (pre : Addr)
    (first second : Mac) :
    se6GenerateEui64GlobalAddress tmp pre (se6GenerateSubnetMask length) first =
      se6GenerateEui64GlobalAddress tmp' pre (se6GenerateSubnetMask length) second ↔ SameVendor first second := by
  constructor
  · intro same
    have low := congrArg interfaceId same
    rw [global_low short, global_low short, interfaceId_local, interfaceId_local] at low
    exact ⟨congrFun low 5, congrFun low 6, congrFun low 7⟩
  · rintro ⟨a, b, c⟩
    simp only [se6GenerateEui64GlobalAddress, se6GenerateEui64Address_eq, a, b, c]

theorem local_inside (tmp : Fin 8 → UInt8) (mac : Mac) : LinkLocal (se6GenerateEui64LocalAddress tmp mac) := by
  rw [local_eq]
  refine ⟨rfl, rfl, ?_⟩
  rintro ⟨_ | _ | _ | _ | _ | _ | _ | _ | i, bound⟩ above below
  · simp at above
  · simp at above
  · rfl
  · rfl
  · rfl
  · rfl
  · rfl
  · rfl
  · simp only at below
    omega

theorem masked (a p s : UInt8) : ((a &&& ~~~s) ||| (p &&& s)) &&& s = p &&& s := by
  apply UInt8.eq_of_toBitVec_eq
  simp only [UInt8.toBitVec_and, UInt8.toBitVec_or, UInt8.toBitVec_not]
  ext i bound
  simp only [BitVec.getElem_and, BitVec.getElem_or, BitVec.getElem_not]
  cases s.toBitVec[i] <;> simp

theorem global_inside (tmp : Fin 8 → UInt8) (pre subnet : Addr) (mac : Mac) :
    Inside (se6GenerateEui64GlobalAddress tmp pre subnet mac) pre subnet := by
  funext i
  exact masked _ (pre i) (subnet i)

/-- The addresses are inside their prefixes. The identifier is that of the MAC address when its halves are the
same, and two hosts get different addresses when they have different vendors. -/
theorem eui64_exact (pre : Addr) (length : UInt32) (short : length.toNat ≤ 64) (tmp tmp' : Fin 8 → UInt8)
    (first second : Mac) :
    LinkLocal (se6GenerateEui64LocalAddress tmp first) ∧
    Inside (se6GenerateEui64GlobalAddress tmp pre (se6GenerateSubnetMask length) first) pre
      (se6GenerateSubnetMask length) ∧
    (interfaceId (se6GenerateEui64LocalAddress tmp first) = modifiedEui64 first ↔ Repeats first) ∧
    (interfaceId (se6GenerateEui64GlobalAddress tmp pre (se6GenerateSubnetMask length) first) = modifiedEui64 first ↔
      Repeats first) ∧
    ((first ≠ second → se6GenerateEui64LocalAddress tmp first ≠ se6GenerateEui64LocalAddress tmp' second) ↔
      first = second ∨ ¬SameVendor first second) ∧
    ((first ≠ second → se6GenerateEui64GlobalAddress tmp pre (se6GenerateSubnetMask length) first ≠
        se6GenerateEui64GlobalAddress tmp' pre (se6GenerateSubnetMask length) second) ↔
      first = second ∨ ¬SameVendor first second) := by
  refine ⟨local_inside tmp first, global_inside tmp pre _ first, identifier_iff tmp first, ?_, ?_, ?_⟩
  · rw [global_low short]
    exact identifier_iff tmp first
  · rw [Ne, Ne, local_iff, imp_iff_not_or, not_not]
  · rw [Ne, Ne, global_iff short, imp_iff_not_or, not_not]

theorem eui64_exact_slash64 : LinkLocal (se6GenerateEui64LocalAddress (fun _ => 0) (fun _ => 7)) :=
  (eui64_exact (fun _ => 0x20) 64 (by decide) (fun _ => 0) (fun _ => 0) (fun _ => 7) (fun _ => 9)).1

/-- Two network cards of one vendor. -/
theorem eui64_collides :
    let first : Mac := fun i => [0x00, 0x11, 0x22, 0x33, 0x44, 0x55].getD i 0
    let second : Mac := fun i => [0x00, 0x11, 0x22, 0x66, 0x77, 0x88].getD i 0
    first ≠ second ∧
      se6GenerateEui64LocalAddress (fun _ => 0) first = se6GenerateEui64LocalAddress (fun _ => 0) second ∧
      interfaceId (se6GenerateEui64LocalAddress (fun _ => 0) first) ≠ modifiedEui64 first := by
  intro first second
  refine ⟨fun same => ?_, (local_iff _ _ first second).mpr ⟨rfl, rfl, rfl⟩, fun same => ?_⟩
  · have differs : (0x33 : UInt8) = 0x66 := congrFun same 3
    cases differs
  · have differs : (0x33 : UInt8) = 0x00 := ((identifier_iff _ first).mp same).1
    cases differs

end DisasVisor.Vpn.Ip6
