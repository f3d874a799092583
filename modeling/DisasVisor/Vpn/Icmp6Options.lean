import DisasVisor.Lib.Loops
import DisasVisor.Vpn.Ip6Slices

/-!
The loop of `SeParseICMPv6Options` in `vpn/lib/Se/SePacket.c`. An option of length 0 leaves it where it is,
unless its type is one of the link layer options.
-/

namespace DisasVisor.Vpn.Icmp6

open Passes List

structure OptionList where
  sourceLinkLayer : Option Nat
  targetLinkLayer : Option Nat
  prefixInfo : Option Nat
  mtu : Option Nat
  deriving DecidableEq

def OptionList.zero : OptionList := ⟨none, none, none, none⟩

def typeSourceLinkLayer : UInt8 := 1
def typeTargetLinkLayer : UInt8 := 2
def typePrefix : UInt8 := 3
def typeMtu : UInt8 := 5

def sizeofLinkLayer : Nat := 8
def sizeofPrefix : Nat := 32
def sizeofMtu : Nat := 8

structure Scan where
  o : OptionList
  at' : Nat
  buf : List UInt8

def Scan.start (buf : List UInt8) : Scan := ⟨.zero, 0, buf⟩

def optionPass (s : Scan) : Scan ⊕ Bool × OptionList :=
  if s.buf.length < 2 then .inr (true, s.o)
  else
    let type := s.buf.getD 0 0
    let headerTotalSize := (s.buf.getD 1 0).toNat * 8
    if s.buf.length < headerTotalSize then .inr (true, s.o)
    else
      let goOn (o : OptionList) : Scan ⊕ Bool × OptionList :=
        .inl ⟨o, s.at' + headerTotalSize, s.buf.drop headerTotalSize⟩
      if type = typeSourceLinkLayer ∨ type = typeTargetLinkLayer then
        if headerTotalSize ≥ sizeofLinkLayer then
          if type = typeSourceLinkLayer then goOn { s.o with sourceLinkLayer := some s.at' }
          else goOn { s.o with targetLinkLayer := some s.at' }
        else .inr (false, s.o)
      else if type = typePrefix then
        if headerTotalSize ≥ sizeofPrefix then goOn { s.o with prefixInfo := some s.at' } else goOn s.o
      else if type = typeMtu then
        if headerTotalSize ≥ sizeofMtu then goOn { s.o with mtu := some s.at' } else goOn s.o
      else goOn s.o

def seParseICMPv6Options (fuel : Nat) (buf : List UInt8) : Option (Bool × OptionList) :=
  run optionPass fuel (Scan.start buf)

def IsOption (option : List UInt8) : Prop := option ≠ [] ∧ option.length = (option.getD 1 0).toNat * 8

def Stalls (buf : List UInt8) : Prop :=
  ∃ (options : List (List UInt8)) (type : UInt8) (rest : List UInt8), (∀ option ∈ options, IsOption option) ∧
    type ≠ typeSourceLinkLayer ∧ type ≠ typeTargetLinkLayer ∧ buf = options.flatten ++ type :: 0 :: rest

def Designates (buf : List UInt8) (type : UInt8) (size at' : Nat) : Prop :=
  buf.getD at' 0 = type ∧ size ≤ (buf.getD (at' + 1) 0).toNat * 8 ∧ at' + (buf.getD (at' + 1) 0).toNat * 8 ≤ buf.length

structure OptionList.Inside (buf : List UInt8) (o : OptionList) : Prop where
  sourceLinkLayer : ∀ at', o.sourceLinkLayer = some at' → Designates buf typeSourceLinkLayer sizeofLinkLayer at'
  targetLinkLayer : ∀ at', o.targetLinkLayer = some at' → Designates buf typeTargetLinkLayer sizeofLinkLayer at'
  prefixInfo : ∀ at', o.prefixInfo = some at' → Designates buf typePrefix sizeofPrefix at'
  mtu : ∀ at', o.mtu = some at' → Designates buf typeMtu sizeofMtu at'

variable {buf : List UInt8} {s t : Scan}

theorem optionPass_goes (goes : optionPass s = .inl t) :
    let size := (s.buf.getD 1 0).toNat * 8
    2 ≤ s.buf.length ∧ size ≤ s.buf.length ∧ t.at' = s.at' + size ∧ t.buf = s.buf.drop size ∧
      (s.buf.getD 0 0 = typeSourceLinkLayer ∨ s.buf.getD 0 0 = typeTargetLinkLayer → sizeofLinkLayer ≤ size) ∧
      (t.o = s.o ∨
        s.buf.getD 0 0 = typeSourceLinkLayer ∧ sizeofLinkLayer ≤ size ∧
          t.o = { s.o with sourceLinkLayer := some s.at' } ∨
        s.buf.getD 0 0 = typeTargetLinkLayer ∧ sizeofLinkLayer ≤ size ∧
          t.o = { s.o with targetLinkLayer := some s.at' } ∨
        s.buf.getD 0 0 = typePrefix ∧ sizeofPrefix ≤ size ∧ t.o = { s.o with prefixInfo := some s.at' } ∨
        s.buf.getD 0 0 = typeMtu ∧ sizeofMtu ≤ size ∧ t.o = { s.o with mtu := some s.at' }) := by
  intro size
  simp only [optionPass] at goes
  split at goes
  · cases goes
  · rename_i long
    split at goes
    · cases goes
    · rename_i fits
      have two : 2 ≤ s.buf.length := by omega
      have le : size ≤ s.buf.length := by omega
      split at goes
      · rename_i link
        split at goes
        · rename_i enough
          split at goes
          · rename_i source
            cases goes
            exact ⟨two, le, rfl, rfl, fun _ => enough, .inr (.inl ⟨source, enough, rfl⟩)⟩
          · rename_i other
            cases goes
            exact ⟨two, le, rfl, rfl, fun _ => enough, .inr (.inr (.inl ⟨link.resolve_left other, enough, rfl⟩))⟩
        · cases goes
      · rename_i link
        split at goes
        · rename_i isPrefix
          split at goes
          · rename_i enough
            cases goes
            exact ⟨two, le, rfl, rfl, fun is => absurd is link,
              .inr (.inr (.inr (.inl ⟨isPrefix, enough, rfl⟩)))⟩
          · cases goes
            exact ⟨two, le, rfl, rfl, fun is => absurd is link, .inl rfl⟩
        · split at goes
          · rename_i isMtu
            split at goes
            · rename_i enough
              cases goes
              exact ⟨two, le, rfl, rfl, fun is => absurd is link,
                .inr (.inr (.inr (.inr ⟨isMtu, enough, rfl⟩)))⟩
            · cases goes
              exact ⟨two, le, rfl, rfl, fun is => absurd is link, .inl rfl⟩
          · cases goes
            exact ⟨two, le, rfl, rfl, fun is => absurd is link, .inl rfl⟩

structure Placed (buf : List UInt8) (s : Scan) : Prop where
  rest : s.buf = buf.drop s.at'
  place : s.at' ≤ buf.length
  inside : s.o.Inside buf

theorem placed_start (buf : List UInt8) : Placed buf (Scan.start buf) where
  rest := rfl
  place := Nat.zero_le _
  inside :=
    { sourceLinkLayer := fun _ none => by cases none
      targetLinkLayer := fun _ none => by cases none
      prefixInfo := fun _ none => by cases none
      mtu := fun _ none => by cases none }

theorem Placed.designates (placed : Placed buf s) {type : UInt8} {size : Nat} (two : 2 ≤ s.buf.length)
    (is : s.buf.getD 0 0 = type) (enough : size ≤ (s.buf.getD 1 0).toNat * 8)
    (fits : (s.buf.getD 1 0).toNat * 8 ≤ s.buf.length) : Designates buf type size s.at' := by
  have place := placed.place
  have at0 : s.buf.getD 0 0 = buf.getD s.at' 0 := by
    rw [placed.rest, getD_eq_getElem?_getD, getD_eq_getElem?_getD, List.getElem?_drop, Nat.add_zero]
  have at1 : s.buf.getD 1 0 = buf.getD (s.at' + 1) 0 := by
    rw [placed.rest, getD_eq_getElem?_getD, getD_eq_getElem?_getD, List.getElem?_drop]
  have left : s.buf.length = buf.length - s.at' := by rw [placed.rest, length_drop]
  rw [at1] at enough fits
  exact ⟨at0.symm.trans is, enough, by omega⟩

theorem Placed.pass (placed : Placed buf s) (goes : optionPass s = .inl t) : Placed buf t := by
  obtain ⟨two, fits, place, rest, -, list⟩ := optionPass_goes goes
  have before := placed.place
  have left : s.buf.length = buf.length - s.at' := by rw [placed.rest, length_drop]
  have inside := placed.inside
  refine ⟨?_, by omega, ?_⟩
  · rw [rest, place, placed.rest, drop_drop]
  · rcases list with same | ⟨is, enough, set⟩ | ⟨is, enough, set⟩ | ⟨is, enough, set⟩ | ⟨is, enough, set⟩
    · rw [same]
      exact inside
    · rw [set]
      refine { inside with sourceLinkLayer := ?_ }
      intro at' found
      cases found
      exact placed.designates two is enough fits
    · rw [set]
      refine { inside with targetLinkLayer := ?_ }
      intro at' found
      cases found
      exact placed.designates two is enough fits
    · rw [set]
      refine { inside with prefixInfo := ?_ }
      intro at' found
      cases found
      exact placed.designates two is enough fits
    · rw [set]
      refine { inside with mtu := ?_ }
      intro at' found
      cases found
      exact placed.designates two is enough fits

theorem optionPass_returns {ret : Bool} {o : OptionList} (returns : optionPass s = .inr (ret, o)) : o = s.o := by
  simp only [optionPass] at returns
  split at returns
  · cases returns
    rfl
  · split at returns
    · cases returns
      rfl
    · split at returns
      · split at returns
        · split at returns
          · cases returns
          · cases returns
        · cases returns
          rfl
      · split at returns
        · split at returns
          · cases returns
          · cases returns
        · split at returns
          · split at returns
            · cases returns
            · cases returns
          · cases returns

theorem placed_of_reaches (reached : Reaches optionPass (Scan.start buf) s) : Placed buf s :=
  reached.invariant (Placed buf) (fun _ _ placed goes => placed.pass goes) (placed_start buf)

theorem stalls_of_stays (goes : optionPass s = .inl t) (stays : ¬t.buf.length < s.buf.length) : Stalls s.buf := by
  obtain ⟨two, fits, place, rest, link, -⟩ := optionPass_goes goes
  rw [rest, length_drop] at stays
  have zero : (s.buf.getD 1 0).toNat = 0 := by omega
  have eight : sizeofLinkLayer = 8 := rfl
  have notSource : s.buf.getD 0 0 ≠ typeSourceLinkLayer := by
    intro is
    have enough := link (.inl is)
    omega
  have notTarget : s.buf.getD 0 0 ≠ typeTargetLinkLayer := by
    intro is
    have enough := link (.inr is)
    omega
  refine ⟨[], s.buf.getD 0 0, s.buf.drop 2, fun _ member => absurd member not_mem_nil, notSource, notTarget, ?_⟩
  have second : s.buf.getD 1 0 = 0 := UInt8.toNat_inj.mp zero
  rcases shape : s.buf with _ | ⟨first, _ | ⟨next, others⟩⟩
  · rw [shape] at two
    simp at two
  · rw [shape] at two
    simp at two
  · rw [shape] at second
    rw [flatten_nil, nil_append]
    change first :: next :: others = first :: 0 :: others
    rw [show next = 0 from second]

theorem stalls_of_goes (goes : optionPass s = .inl t) (stalls : Stalls t.buf) : Stalls s.buf := by
  by_cases stays : t.buf.length < s.buf.length
  · obtain ⟨two, fits, place, rest, link, -⟩ := optionPass_goes goes
    obtain ⟨options, type, behind, complete, notSource, notTarget, is⟩ := stalls
    let size := (s.buf.getD 1 0).toNat * 8
    have positive : 8 ≤ size := by
      rw [rest, length_drop] at stays
      omega
    have length : (s.buf.take size).length = size := by
      rw [length_take]
      omega
    have second : (s.buf.take size).getD 1 0 = s.buf.getD 1 0 := by
      rw [getD_eq_getElem?_getD, getD_eq_getElem?_getD, List.getElem?_take_of_lt (by omega)]
    refine ⟨s.buf.take size :: options, type, behind, ?_, notSource, notTarget, ?_⟩
    · intro option member
      rcases mem_cons.mp member with rfl | later
      · refine ⟨?_, ?_⟩
        · intro none'
          rw [none', length_nil] at length
          omega
        · rw [length, second]
      · exact complete option later
    · rw [flatten_cons, append_assoc, ← is, rest, take_append_drop]
  · exact stalls_of_stays goes stays

theorem goes_option {option : List UInt8} (is : IsOption option) (o : OptionList) (at' : Nat) (rest : List UInt8) :
    ∃ t, optionPass ⟨o, at', option ++ rest⟩ = .inl t ∧ t.buf = rest := by
  obtain ⟨some', length⟩ := is
  have positive := length_pos_of_ne_nil some'
  have second : (option ++ rest).getD 1 0 = option.getD 1 0 := by
    rw [getD_eq_getElem?_getD, getD_eq_getElem?_getD, List.getElem?_append_left (by omega)]
  have behind : (option ++ rest).drop ((option.getD 1 0).toNat * 8) = rest := by rw [← length, drop_left]
  have enough : (option.getD 1 0).toNat * 8 ≥ sizeofLinkLayer := by
    change 8 ≤ _
    omega
  simp only [optionPass, second, behind]
  rw [if_neg (by rw [length_append]; omega), if_neg (by rw [length_append]; omega), if_pos enough]
  split
  · split
    · exact ⟨_, rfl, rfl⟩
    · exact ⟨_, rfl, rfl⟩
  · split
    · split
      · exact ⟨_, rfl, rfl⟩
      · exact ⟨_, rfl, rfl⟩
    · split
      · split
        · exact ⟨_, rfl, rfl⟩
        · exact ⟨_, rfl, rfl⟩
      · exact ⟨_, rfl, rfl⟩

theorem goes_stalled {type : UInt8} (notSource : type ≠ typeSourceLinkLayer) (notTarget : type ≠ typeTargetLinkLayer)
    (o : OptionList) (at' : Nat) (rest : List UInt8) :
    optionPass ⟨o, at', type :: 0 :: rest⟩ = .inl ⟨o, at', type :: 0 :: rest⟩ := by
  have neither : ¬(type = typeSourceLinkLayer ∨ type = typeTargetLinkLayer) := not_or.mpr ⟨notSource, notTarget⟩
  have zero : ((type :: 0 :: rest).getD 1 0).toNat * 8 = 0 := rfl
  have first : (type :: 0 :: rest).getD 0 0 = type := rfl
  simp only [optionPass, zero, first, if_neg neither, length_cons, Nat.add_zero, drop_zero]
  rw [if_neg (by omega), if_neg (by omega), if_neg (show ¬(0 ≥ sizeofPrefix) by decide),
    if_neg (show ¬(0 ≥ sizeofMtu) by decide)]
  split
  · rfl
  · split
    · rfl
    · rfl

theorem stalls_goes (stalls : Stalls s.buf) : ∃ t, optionPass s = .inl t ∧ Stalls t.buf := by
  obtain ⟨o, at', buf⟩ := s
  obtain ⟨options, type, rest, complete, notSource, notTarget, rfl⟩ := stalls
  cases options with
  | nil => exact ⟨_, goes_stalled notSource notTarget o at' rest, [], type, rest, complete, notSource, notTarget, rfl⟩
  | cons option options =>
    obtain ⟨t, goes, behind⟩ := goes_option (complete option mem_cons_self) o at'
      (options.flatten ++ type :: 0 :: rest)
    rw [flatten_cons, append_assoc]
    exact ⟨t, goes, options, type, rest, fun other later => complete other (mem_cons_of_mem _ later),
      notSource, notTarget, behind⟩

structure ParsesToEnd (buf : List UInt8) : Prop where
  ends : ∃ fuel result, seParseICMPv6Options fuel buf = some result
  ahead : ∀ s t, Reaches optionPass (Scan.start buf) s → optionPass s = .inl t → t.buf.length < s.buf.length
  inside : ∀ fuel ret o, seParseICMPv6Options fuel buf = some (ret, o) → o.Inside buf

theorem options_inside {fuel : Nat} {ret : Bool} {o : OptionList}
    (parsed : seParseICMPv6Options fuel buf = some (ret, o)) : o.Inside buf := by
  obtain ⟨s, reached, returns⟩ := run_cases parsed
  rw [optionPass_returns returns]
  exact (placed_of_reaches reached).inside

theorem not_stalls_goes (s t : Scan) (clear : ¬Stalls s.buf) (goes : optionPass s = .inl t) : ¬Stalls t.buf :=
  fun stalls => clear (stalls_of_goes goes stalls)

theorem goes_ahead (s t : Scan) (clear : ¬Stalls s.buf) (goes : optionPass s = .inl t) :
    t.buf.length < s.buf.length := by
  by_contra stays
  exact clear (stalls_of_stays goes stays)

theorem options_end (clear : ¬Stalls buf) : ∃ result, seParseICMPv6Options (buf.length + 1) buf = some result :=
  ends_of_measure (fun s : Scan => ¬Stalls s.buf) (fun s => s.buf.length) not_stalls_goes goes_ahead
    (s := Scan.start buf) clear

theorem options_stall (stalls : Stalls buf) (fuel : Nat) : seParseICMPv6Options fuel buf = none := by
  have never := not_ends (fun s : Scan => Stalls s.buf) (fun s here => stalls_goes here) (s := Scan.start buf) stalls
  cases done : seParseICMPv6Options fuel buf with
  | none => rfl
  | some result => exact absurd ⟨fuel, result, done⟩ never

theorem parsesToEnd_iff (buf : List UInt8) : ParsesToEnd buf ↔ ¬Stalls buf := by
  constructor
  · intro parses stalls
    obtain ⟨fuel, result, done⟩ := parses.ends
    rw [options_stall stalls] at done
    cases done
  · intro clear
    obtain ⟨result, done⟩ := options_end clear
    refine ⟨⟨_, result, done⟩, ?_, fun _ _ _ parsed => options_inside parsed⟩
    intro s t reached goes
    exact goes_ahead s t (reached.invariant (fun s : Scan => ¬Stalls s.buf) not_stalls_goes clear) goes

theorem flow_options (fuel : Nat) (s : Scan) :
    (Ip6.seParseICMPv6Options fuel s.o.sourceLinkLayer s.at' s.buf).flow =
      match run optionPass fuel s with
      | none => .fault
      | some (true, o) => .next (some o.sourceLinkLayer)
      | some (false, _) => .next none := by
  induction fuel generalizing s with
  | zero => rfl
  | succ fuel ih =>
    obtain ⟨o, at', buf⟩ := s
    rw [Ip6.seParseICMPv6Options, run, optionPass]
    simp only
    by_cases short : buf.length < 2
    · rw [if_pos short, if_pos short]
      rfl
    · rw [if_neg short, if_neg short]
      simp only [Traced.emit_bind]
      by_cases cut : buf.length < (buf.getD 1 0).toNat * 8
      · rw [if_pos cut, if_pos cut]
        rfl
      · rw [if_neg cut, if_neg cut]
        have sizes : sizeofLinkLayer = 8 := rfl
        have later := fun o' => ih ⟨o', at' + (buf.getD 1 0).toNat * 8, buf.drop ((buf.getD 1 0).toNat * 8)⟩
        by_cases link : buf.getD 0 0 = 1 ∨ buf.getD 0 0 = 2
        · have isLink : buf.getD 0 0 = typeSourceLinkLayer ∨ buf.getD 0 0 = typeTargetLinkLayer := link
          rw [if_pos link, if_pos isLink, sizes]
          by_cases enough : (buf.getD 1 0).toNat * 8 ≥ 8
          · rw [if_pos enough, if_pos enough]
            by_cases source : buf.getD 0 0 = 1
            · have isSource : buf.getD 0 0 = typeSourceLinkLayer := source
              rw [if_pos source, if_pos isSource]
              exact later { o with sourceLinkLayer := some at' }
            · have other : ¬buf.getD 0 0 = typeSourceLinkLayer := source
              rw [if_neg source, if_neg other]
              exact later { o with targetLinkLayer := some at' }
          · rw [if_neg enough, if_neg enough]
            rfl
        · have other : ¬(buf.getD 0 0 = typeSourceLinkLayer ∨ buf.getD 0 0 = typeTargetLinkLayer) := link
          rw [if_neg link, if_neg other, Traced.log_bind]
          change (Ip6.seParseICMPv6Options fuel o.sourceLinkLayer (at' + (buf.getD 1 0).toNat * 8)
            (buf.drop ((buf.getD 1 0).toNat * 8))).flow = _
          by_cases isPrefix : buf.getD 0 0 = typePrefix
          · rw [if_pos isPrefix]
            by_cases enough : (buf.getD 1 0).toNat * 8 ≥ sizeofPrefix
            · rw [if_pos enough]
              exact later { o with prefixInfo := some at' }
            · rw [if_neg enough]
              exact later o
          · rw [if_neg isPrefix]
            by_cases isMtu : buf.getD 0 0 = typeMtu
            · rw [if_pos isMtu]
              by_cases enough : (buf.getD 1 0).toNat * 8 ≥ sizeofMtu
              · rw [if_pos enough]
                exact later { o with mtu := some at' }
              · rw [if_neg enough]
                exact later o
            · rw [if_neg isMtu]
              exact later o

/-- A prefix option of length 0. -/
theorem options_stall_prefix : ¬ParsesToEnd [3, 0, 0, 0, 0, 0, 0, 0] := by
  intro parses
  obtain ⟨fuel, result, done⟩ := parses.ends
  have stalls : Stalls [3, 0, 0, 0, 0, 0, 0, 0] :=
    ⟨[], 3, [0, 0, 0, 0, 0, 0], fun _ member => absurd member not_mem_nil, by decide, by decide, rfl⟩
  rw [options_stall stalls] at done
  cases done

end DisasVisor.Vpn.Icmp6
