import DisasVisor.Lib.Traced
import DisasVisor.Vpn.Ip6Packets
import DisasVisor.Lib.Words

/-!
IPv6 addresses as text: `Se6IPToStr` and `Se6StrToIP` in `vpn/lib/Se/SeIp6.c`, with what they use of
`SeStr.c`. A string is its characters in front of the terminating zero.
-/

namespace DisasVisor.Vpn.Ip6

abbrev Str := List UInt8

def ch (c : Char) : UInt8 := UInt8.ofNat c.toNat

def se4BitToHex (value : Nat) : UInt8 :=
  if value % 16 ≤ 9 then ch '0' + UInt8.ofNat (value % 16) else ch 'a' + UInt8.ofNat (value % 16 - 10)

def hexDigits : Nat → Nat → Str
  | 0, _ => []
  | fuel + 1, value => se4BitToHex (value % 16) :: if value / 16 = 0 then [] else hexDigits fuel (value / 16)

def seToHex (value : Nat) : Str := (hexDigits 8 value).reverse

def seToLower (c : UInt8) : UInt8 := if ch 'A' ≤ c ∧ c ≤ ch 'Z' then c + (ch 'a' - ch 'A') else c

def seToUpper (c : UInt8) : UInt8 := if ch 'a' ≤ c ∧ c ≤ ch 'z' then c - (ch 'a' - ch 'A') else c

def seStrLower (str : Str) : Str := str.map seToLower

def seHexTo4Bit (c : UInt8) : Nat :=
  if ch '0' ≤ c ∧ c ≤ ch '9' then (c - ch '0').toNat
  else if ch 'a' ≤ c ∧ c ≤ ch 'f' then (c - ch 'a').toNat + 10
  else if ch 'A' ≤ c ∧ c ≤ ch 'F' then (c - ch 'A').toNat + 10
  else 0

def isHexDigit (c : UInt8) : Bool := ch '0' ≤ c ∧ c ≤ ch '9' ∨ ch 'a' ≤ c ∧ c ≤ ch 'f' ∨ ch 'A' ≤ c ∧ c ≤ ch 'F'

def seHexToInt (str : Str) : Nat :=
  let str := if str.getD 0 0 = ch '0' ∧ (str.getD 1 0 = ch 'x' ∨ str.getD 1 0 = ch 'X') then str.drop 2 else str
  (str.takeWhile isHexDigit).foldl (fun ret c => ret * 16 + seHexTo4Bit c) 0

def strToBinLoop : Option UInt8 → Str → List UInt8
  | _, [] => []
  | tmp, c :: rest =>
    let c := seToUpper c
    if ch '0' ≤ c ∧ c ≤ ch '9' ∨ ch 'A' ≤ c ∧ c ≤ ch 'F' then
      match tmp with
      | none => strToBinLoop (some c) rest
      | some first => UInt8.ofNat (seHexToInt [first, c]) :: strToBinLoop none rest
    else if c = ch ' ' ∨ c = ch ',' ∨ c = ch '-' ∨ c = ch ':' then strToBinLoop tmp rest
    else []

def seStrToBin (str : Str) : List UInt8 := strToBinLoop none str

def isBlank (c : UInt8) : Bool := c = ch ' ' ∨ c = 0x09

def seTrim (str : Str) : Str := ((str.dropWhile isBlank).reverse.dropWhile isBlank).reverse

def tokenLoop (splitChars cur : Str) : Str → List Str
  | [] => [cur]
  | c :: rest => if c ∈ splitChars then cur :: tokenLoop splitChars [] rest else tokenLoop splitChars (cur ++ [c]) rest

def seParseTokenWithNullStr (str splitChars : Str) : List Str := tokenLoop splitChars [] str

def valuesOf (behind : Nat → UInt16) (a : Addr) (i : Nat) : UInt16 :=
  if inside : i < 8 then (a ⟨2 * i, by omega⟩).toUInt16 <<< 8 ||| (a ⟨2 * i + 1, by omega⟩).toUInt16 else behind i

def readValue (values : Nat → UInt16) (i : Nat) : Traced Nat UInt16 := ⟨.next (values i), [i]⟩

structure ZeroScan where
  zeroStartedIndex : Option Nat
  maxZeroLen : Nat
  maxZeroStart : Option Nat

def scanStep (s : ZeroScan) (i : Nat) (value : UInt16) : ZeroScan :=
  if value = 0 then
    match s.zeroStartedIndex with
    | none => { s with zeroStartedIndex := some i }
    | some _ => s
  else
    match s.zeroStartedIndex with
    | none => s
    | some start =>
      if i - start ≥ 2 ∧ s.maxZeroLen < i - start then ⟨none, i - start, some start⟩
      else { s with zeroStartedIndex := none }

def readV (values : Nat → UInt16) (i : Nat) : Traced Nat UInt16 := if i ≠ 8 then readValue values i else pure 1

def searchZeros (values : Nat → UInt16) : List Nat → ZeroScan → Traced Nat ZeroScan
  | [], s => pure s
  | i :: rest, s => do
      let _ ← readV values i
      let value ← readValue values i
      searchZeros values rest (scanStep s i value)

def formString (values : Nat → UInt16) (s : ZeroScan) : Nat → Nat → Traced Nat Str
  | 0, _ => pure []
  | fuel + 1, i =>
    if i < 8 then do
      let value ← readValue values i
      let tmp := seStrLower (seToHex value.toNat)
      if s.maxZeroStart = some i then do
        let rest ← formString values s fuel (i + (s.maxZeroLen - 1) + 1)
        pure ((if i = 0 then [ch ':', ch ':'] else [ch ':']) ++ rest)
      else do
        let rest ← formString values s fuel (i + 1)
        pure (tmp ++ (if i ≠ 7 then [ch ':'] else []) ++ rest)
    else pure []

def se6IPToStr (behind : Nat → UInt16) (a : Addr) : Traced Nat Str := do
  let s ← searchZeros (valuesOf behind a) (List.range 9) ⟨none, 0, none⟩
  formString (valuesOf behind a) s 8 0

def se6CheckIPItemStr (str : Str) : Bool := str.length < 5 ∧ str.all isHexDigit

def se6IPItemStrToChars (str : Str) : UInt8 × UInt8 :=
  let tmp := if str.length ≤ 4 then List.replicate (4 - str.length) (ch '0') ++ str else []
  let b := seStrToBin tmp
  (b.getD 0 0, b.getD 1 0)

/-- The variables of the loop: `value` is the memory at `a.Value`, `written` the places that were written. -/
structure ParseState where
  n : Nat
  k : Nat
  b : Bool
  value : Nat → UInt8
  written : List Nat

def ParseState.start : ParseState := ⟨0, 0, true, fun _ => 0, []⟩

def ParseState.put (p : ParseState) (chars : UInt8 × UInt8) : ParseState :=
  { p with
    k := p.k + 2
    value := Function.update (Function.update p.value p.k chars.1) (p.k + 1) chars.2
    written := p.written ++ [p.k, p.k + 1] }

def tokensToIp (numTokens : Nat) : Nat → List Str → ParseState → ParseState
  | _, [], p => p
  | i, str :: rest, p =>
    if i ≠ 0 ∧ i ≠ numTokens - 1 ∧ str.length = 0 then
      if p.n + 1 = 1 then
        tokensToIp numTokens (i + 1) rest { p with n := p.n + 1, k := p.k + 2 * (8 - numTokens + 1) }
      else { p with n := p.n + 1, b := false }
    else if se6CheckIPItemStr str = false then { p with b := false }
    else tokensToIp numTokens (i + 1) rest (p.put (se6IPItemStrToChars str))

def se6StrToIP (str : Str) : Addr × List Nat :=
  let t := seParseTokenWithNullStr (seTrim (str.take 259)) [ch ':']
  if 3 ≤ t.length ∧ t.length ≤ 8 then
    let p := tokensToIp t.length 0 t .start
    let b := if p.n ≠ 0 ∧ p.n ≠ 1 then false else if p.n = 0 ∧ t.length ≠ 8 then false else p.b
    (if b = false then fun _ => 0 else fun i => p.value i, p.written)
  else (fun _ => 0, [])

open List

structure IsDigit (n : Nat) : Prop where
  hex : isHexDigit (se4BitToHex n) = true
  lower : seToLower (se4BitToHex n) = se4BitToHex n
  upper : ch '0' ≤ seToUpper (se4BitToHex n) ∧ seToUpper (se4BitToHex n) ≤ ch '9' ∨
    ch 'A' ≤ seToUpper (se4BitToHex n) ∧ seToUpper (se4BitToHex n) ≤ ch 'F'
  colon : se4BitToHex n ≠ ch ':'
  blank : isBlank (se4BitToHex n) = false

theorem isDigit {n : Nat} (small : n < 16) : IsDigit n := by
  have hex : ∀ n < 16, isHexDigit (se4BitToHex n) = true := by decide
  have lower : ∀ n < 16, seToLower (se4BitToHex n) = se4BitToHex n := by decide
  have upper : ∀ n < 16, ch '0' ≤ seToUpper (se4BitToHex n) ∧ seToUpper (se4BitToHex n) ≤ ch '9' ∨
      ch 'A' ≤ seToUpper (se4BitToHex n) ∧ seToUpper (se4BitToHex n) ≤ ch 'F' := by decide
  have colon : ∀ n < 16, se4BitToHex n ≠ ch ':' := by decide
  have blank : ∀ n < 16, isBlank (se4BitToHex n) = false := by decide
  exact ⟨hex n small, lower n small, upper n small, colon n small, blank n small⟩

theorem seHexToInt_digits {a b : Nat} (first : a < 16) (second : b < 16) :
    seHexToInt [seToUpper (se4BitToHex a), seToUpper (se4BitToHex b)] = 16 * a + b := by
  have every : ∀ a < 16, ∀ b < 16, seHexToInt [seToUpper (se4BitToHex a), seToUpper (se4BitToHex b)] = 16 * a + b := by
    decide +kernel
  exact every a first b second

theorem seStrToBin_digits {a b c d : Nat} (first : a < 16) (second : b < 16) (third : c < 16) (fourth : d < 16) :
    seStrToBin [se4BitToHex a, se4BitToHex b, se4BitToHex c, se4BitToHex d] =
      [UInt8.ofNat (16 * a + b), UInt8.ofNat (16 * c + d)] := by
  simp only [seStrToBin, strToBinLoop, if_pos (isDigit first).upper, if_pos (isDigit second).upper,
    if_pos (isDigit third).upper, if_pos (isDigit fourth).upper, seHexToInt_digits first second,
    seHexToInt_digits third fourth]

theorem hexDigits_cases {v : Nat} (fits : v < 65536) :
    hexDigits 8 v = [se4BitToHex (v % 16)] ∧ v < 16 ∨
    hexDigits 8 v = [se4BitToHex (v % 16), se4BitToHex (v / 16 % 16)] ∧ v < 256 ∨
    hexDigits 8 v = [se4BitToHex (v % 16), se4BitToHex (v / 16 % 16), se4BitToHex (v / 256 % 16)] ∧ v < 4096 ∨
    hexDigits 8 v = [se4BitToHex (v % 16), se4BitToHex (v / 16 % 16), se4BitToHex (v / 256 % 16),
      se4BitToHex (v / 4096 % 16)] := by
  have two : v / 16 / 16 = v / 256 := Nat.div_div_eq_div_mul v 16 16
  have three : v / 256 / 16 = v / 4096 := Nat.div_div_eq_div_mul v 256 16
  by_cases one : v / 16 = 0
  · exact .inl ⟨by simp only [hexDigits, if_pos one], by omega⟩
  · by_cases none2 : v / 256 = 0
    · exact .inr (.inl ⟨by simp only [hexDigits, if_neg one, two, if_pos none2], by omega⟩)
    · by_cases none3 : v / 4096 = 0
      · exact .inr (.inr (.inl
          ⟨by simp only [hexDigits, if_neg one, two, if_neg none2, three, if_pos none3], by omega⟩))
      · have last : v / 4096 / 16 = 0 := by omega
        exact .inr (.inr (.inr
          (by simp only [hexDigits, if_neg one, two, if_neg none2, three, if_neg none3, if_pos last])))

def hexText (value : UInt16) : Str := seStrLower (seToHex value.toNat)

variable {fuel : Nat} {str : Str}

theorem mem_hexDigits {v : Nat} {c : UInt8} (member : c ∈ hexDigits fuel v) : ∃ n < 16, c = se4BitToHex n := by
  induction fuel generalizing v with
  | zero => cases member
  | succ fuel ih =>
    rcases mem_cons.mp member with rfl | later
    · exact ⟨v % 16, by omega, rfl⟩
    · split at later
      · cases later
      · exact ih later

theorem hexText_eq (value : UInt16) : hexText value = seToHex value.toNat := by
  refine (map_congr_left fun c member => ?_).trans (map_id _)
  obtain ⟨n, small, rfl⟩ := mem_hexDigits (mem_reverse.mp member)
  exact (isDigit small).lower

theorem mem_hexText {value : UInt16} {c : UInt8} (member : c ∈ hexText value) : ∃ n < 16, c = se4BitToHex n := by
  rw [hexText_eq] at member
  exact mem_hexDigits (mem_reverse.mp member)

theorem hexText_padded (value : UInt16) : 1 ≤ (hexText value).length ∧ (hexText value).length ≤ 4 ∧
    List.replicate (4 - (hexText value).length) (ch '0') ++ hexText value =
      [se4BitToHex (value.toNat / 4096 % 16), se4BitToHex (value.toNat / 256 % 16),
        se4BitToHex (value.toNat / 16 % 16), se4BitToHex (value.toNat % 16)] := by
  have zero : ch '0' = se4BitToHex 0 := by decide
  rw [hexText_eq, seToHex]
  rcases hexDigits_cases value.toNat_lt with ⟨is, small⟩ | ⟨is, small⟩ | ⟨is, small⟩ | is
  · have second : value.toNat / 16 % 16 = 0 := by omega
    have third : value.toNat / 256 % 16 = 0 := by omega
    have fourth : value.toNat / 4096 % 16 = 0 := by omega
    rw [is, second, third, fourth, zero]
    exact ⟨by simp, by simp, rfl⟩
  · have third : value.toNat / 256 % 16 = 0 := by omega
    have fourth : value.toNat / 4096 % 16 = 0 := by omega
    rw [is, third, fourth, zero]
    exact ⟨by simp, by simp, rfl⟩
  · have fourth : value.toNat / 4096 % 16 = 0 := by omega
    rw [is, fourth, zero]
    exact ⟨by simp, by simp, rfl⟩
  · rw [is]
    exact ⟨by simp, by simp, rfl⟩

theorem hexText_item (value : UInt16) : se6CheckIPItemStr (hexText value) = true ∧
    se6IPItemStrToChars (hexText value) = (UInt8.ofNat (value.toNat / 256), UInt8.ofNat (value.toNat % 256)) := by
  obtain ⟨-, short, padded⟩ := hexText_padded value
  have bound := value.toNat_lt
  constructor
  · rw [se6CheckIPItemStr, decide_eq_true_eq]
    refine ⟨by omega, all_eq_true.mpr fun c member => ?_⟩
    obtain ⟨n, small, rfl⟩ := mem_hexText member
    exact (isDigit small).hex
  · have high : 16 * (value.toNat / 4096 % 16) + value.toNat / 256 % 16 = value.toNat / 256 := by omega
    have low : 16 * (value.toNat / 16 % 16) + value.toNat % 16 = value.toNat % 256 := by omega
    rw [se6IPItemStrToChars, if_pos short, padded, seStrToBin_digits (by omega) (by omega) (by omega) (by omega),
      high, low]
    rfl

variable {values : Nat → UInt16} {s t : ZeroScan} {i g : Nat} {a : Addr} {behind : Nat → UInt16}

theorem flow_readValue (values : Nat → UInt16) (i : Nat) : (readValue values i).flow = .next (values i) := rfl

structure Found (values : Nat → UInt16) (s : ZeroScan) (i : Nat) : Prop where
  open' : ∀ start, s.zeroStartedIndex = some start → ∀ j, start ≤ j → j < i → values j = 0
  run : ∀ start, s.maxZeroStart = some start → 2 ≤ s.maxZeroLen ∧ start + s.maxZeroLen < i ∧
    ∀ j, start ≤ j → j < start + s.maxZeroLen → values j = 0

theorem Found.step (found : Found values s i) : Found values (scanStep s i (values i)) (i + 1) := by
  have longer : ∀ start, s.maxZeroStart = some start → 2 ≤ s.maxZeroLen ∧ start + s.maxZeroLen < i + 1 ∧
      ∀ j, start ≤ j → j < start + s.maxZeroLen → values j = 0 := by
    intro start is
    obtain ⟨two, inside, zeros⟩ := found.run start is
    exact ⟨two, by omega, zeros⟩
  rw [scanStep]
  split
  · rename_i zero
    split
    · refine ⟨?_, longer⟩
      intro start is j above below
      cases is
      have same : j = i := by omega
      rw [same, zero]
    · rename_i opened is
      refine ⟨?_, longer⟩
      intro start is' j above below
      by_cases same : j = i
      · rw [same, zero]
      · exact found.open' start is' j above (by omega)
  · split
    · rename_i closed
      refine ⟨?_, longer⟩
      intro start is
      rw [closed] at is
      cases is
    · rename_i start is
      split
      · rename_i best
        refine ⟨fun start' is' => (by cases is'), ?_⟩
        intro start' is'
        cases is'
        refine ⟨best.1, ?_, ?_⟩
        · simp only
          omega
        · intro j above below
          simp only at below
          exact found.open' start is j above (by omega)
      · exact ⟨fun start' is' => (by cases is'), longer⟩

theorem searchZeros_spec (found : Found values s i) (count : Nat) :
    ∃ t trace, searchZeros values (List.range' i count) s = ⟨.next t, trace⟩ ∧ Found values t (i + count) ∧
      ∀ j, i ≤ j → j < i + count → j ∈ trace := by
  induction count generalizing s i with
  | zero => exact ⟨s, [], rfl, found, fun j above below => by omega⟩
  | succ count ih =>
    obtain ⟨t, trace, is, later, reads⟩ := ih found.step
    obtain ⟨v, first, read⟩ : ∃ v first, readV values i = ⟨.next v, first⟩ := by
      rw [readV]
      split
      · exact ⟨_, _, rfl⟩
      · exact ⟨_, _, rfl⟩
    have falls : (readV values i).flow = .next v := by rw [read]
    refine ⟨t, first ++ ([i] ++ trace), ?_, ?_, ?_⟩
    · rw [List.range'_succ, searchZeros, Traced.bind_next falls,
        Traced.bind_next (flow_readValue values i), is, read]
      rfl
    · have place : i + 1 + count = i + (count + 1) := by omega
      rw [← place]
      exact later
    · intro j above below
      by_cases same : j = i
      · rw [same]
        exact mem_append_right _ (mem_append_left _ (mem_singleton.mpr rfl))
      · exact mem_append_right _ (mem_append_right _ (reads j (by omega) (by omega)))

def Clean (str : Str) : Prop := ∀ c ∈ str, c = ch ':' ∨ ∃ n < 16, c = se4BitToHex n

theorem clean_hexText (value : UInt16) : Clean (hexText value) := fun _ member => .inr (mem_hexText member)

theorem Clean.append {left right : Str} (first : Clean left) (second : Clean right) : Clean (left ++ right) := by
  intro c member
  rcases mem_append.mp member with old | new
  · exact first c old
  · exact second c new

theorem Clean.not_blank (clean : Clean str) : ∀ c ∈ str, isBlank c = false := by
  intro c member
  rcases clean c member with rfl | ⟨n, small, rfl⟩
  · decide
  · exact (isDigit small).blank

theorem seTrim_clean (clean : Clean str) : seTrim str = str := by
  have front : ∀ list : Str, (∀ c ∈ list, isBlank c = false) → list.dropWhile isBlank = list := by
    intro list none'
    cases list with
    | nil => rfl
    | cons c rest => exact dropWhile_cons_of_neg (by rw [none' c mem_cons_self]; exact Bool.false_ne_true)
  have plain := clean.not_blank
  rw [seTrim, front str plain, front str.reverse (fun c member => plain c (mem_reverse.mp member)), reverse_reverse]

theorem tokenLoop_text {text cur : Str} (none' : ch ':' ∉ text) (rest : Str) :
    tokenLoop [ch ':'] cur (text ++ ch ':' :: rest) = (cur ++ text) :: tokenLoop [ch ':'] [] rest := by
  induction text generalizing cur with
  | nil => rw [nil_append, tokenLoop, if_pos (mem_singleton.mpr rfl), append_nil]
  | cons c text ih =>
    have other : c ∉ [ch ':'] := fun member => none' (mem_singleton.mp member ▸ mem_cons_self)
    rw [cons_append, tokenLoop, if_neg other, ih (fun member => none' (mem_cons_of_mem c member)),
      append_assoc, singleton_append]

theorem tokenLoop_last {text cur : Str} (none' : ch ':' ∉ text) : tokenLoop [ch ':'] cur text = [cur ++ text] := by
  induction text generalizing cur with
  | nil => rw [tokenLoop, append_nil]
  | cons c text ih =>
    have other : c ∉ [ch ':'] := fun member => none' (mem_singleton.mp member ▸ mem_cons_self)
    rw [tokenLoop, if_neg other, ih (fun member => none' (mem_cons_of_mem c member)), append_assoc, singleton_append]

theorem colon_notMem (value : UInt16) : ch ':' ∉ hexText value := by
  intro member
  obtain ⟨n, small, is⟩ := mem_hexText member
  exact (isDigit small).colon is.symm

def texts (values : Nat → UInt16) (i count : Nat) : List Str := (List.range' i count).map fun j => hexText (values j)

def restTokens (values : Nat → UInt16) (i : Nat) : List Str := if i = 8 then [[]] else texts values i (8 - i)

structure Forms (run : Traced Nat Str) (tokens : List Str) (most : Nat) : Prop where
  forms : ∃ str, run.flow = .next str ∧ tokenLoop [ch ':'] [] str = tokens ∧ Clean str ∧ str.length ≤ most

theorem clean_nil : Clean [] := fun _ member => absurd member not_mem_nil

theorem clean_colon (clean : Clean str) : Clean (ch ':' :: str) := by
  intro c member
  rcases mem_cons.mp member with rfl | later
  · exact .inl rfl
  · exact clean c later

theorem formString_group (inside : i < 8) (other : s.maxZeroStart ≠ some i)
    (rest : (formString values s fuel (i + 1)).flow = .next str) :
    (formString values s (fuel + 1) i).flow =
      .next (hexText (values i) ++ (if i ≠ 7 then [ch ':'] else []) ++ str) := by
  rw [formString, if_pos inside, Traced.bind_next (flow_readValue values i)]
  simp only
  rw [if_neg other, Traced.bind_next rest]
  rfl

theorem formString_run (inside : i < 8) (same : s.maxZeroStart = some i)
    (rest : (formString values s fuel (i + (s.maxZeroLen - 1) + 1)).flow = .next str) :
    (formString values s (fuel + 1) i).flow = .next ((if i = 0 then [ch ':', ch ':'] else [ch ':']) ++ str) := by
  rw [formString, if_pos inside, Traced.bind_next (flow_readValue values i)]
  simp only
  rw [if_pos same, Traced.bind_next rest]
  rfl

theorem texts_succ (values : Nat → UInt16) (i count : Nat) :
    texts values i (count + 1) = hexText (values i) :: texts values (i + 1) count := by
  rw [texts, List.range'_succ, map_cons, texts]

theorem Forms.group {most : Nat} {tokens : List Str} (inside : i < 7) (other : s.maxZeroStart ≠ some i)
    (rest : Forms (formString values s fuel (i + 1)) tokens most) :
    Forms (formString values s (fuel + 1) i) (hexText (values i) :: tokens) (most + 5) := by
  obtain ⟨str, flow, is, clean, short⟩ := rest.forms
  have four := (hexText_padded (values i)).2.1
  refine ⟨_, formString_group (by omega) other flow, ?_, ?_, ?_⟩
  · rw [if_pos (by omega), append_assoc, singleton_append, tokenLoop_text (colon_notMem _), is, nil_append]
  · rw [if_pos (by omega), append_assoc]
    exact (clean_hexText _).append (clean_colon clean)
  · rw [if_pos (by omega)]
    simp only [length_append, length_cons, length_nil]
    omega

theorem formString_rest (values : Nat → UInt16) (fuel : Nat) (inside : i ≤ 8) (enough : 8 - i ≤ fuel)
    (past : ∀ start, s.maxZeroStart = some start → start < i) :
    Forms (formString values s fuel i) (restTokens values i) (5 * fuel) := by
  induction fuel generalizing i with
  | zero =>
    have last : i = 8 := by omega
    rw [restTokens, if_pos last]
    exact ⟨[], rfl, rfl, clean_nil, Nat.zero_le _⟩
  | succ fuel ih =>
    have other : s.maxZeroStart ≠ some i := fun same => Nat.lt_irrefl i (past i same)
    have later := @ih (i + 1)
    by_cases last : i = 8
    · rw [restTokens, if_pos last, formString, if_neg (by omega)]
      exact ⟨[], rfl, rfl, clean_nil, Nat.zero_le _⟩
    · have next := later (by omega) (by omega) (fun start is => Nat.lt_succ_of_lt (past start is))
      rw [restTokens, if_neg last]
      by_cases seventh : i = 7
      · subst seventh
        obtain ⟨str, flow, is, clean, short⟩ := next.forms
        have four := (hexText_padded (values 7)).2.1
        have nothing : str = [] := by
          cases fuel with
          | zero =>
            cases flow
            rfl
          | succ fuel =>
            rw [formString, if_neg (by omega)] at flow
            cases flow
            rfl
        refine ⟨_, formString_group (by omega) other flow, ?_, ?_, ?_⟩
        · rw [nothing, if_neg (by omega), append_nil, append_nil, tokenLoop_last (colon_notMem _)]
          rfl
        · rw [nothing, if_neg (by omega), append_nil, append_nil]
          exact clean_hexText _
        · rw [nothing, if_neg (by omega), append_nil, append_nil]
          omega
      · have group := next.group (by omega) other
        have size : 8 - i = (8 - (i + 1)) + 1 := by omega
        rw [restTokens, if_neg (by omega)] at group
        rw [size, texts_succ]
        exact group

theorem formString_before {start : Nat} (values : Nat → UInt16) (fuel : Nat) (is : s.maxZeroStart = some start) (two : 2 ≤ s.maxZeroLen)
    (fits : start + s.maxZeroLen ≤ 8) (before : i ≤ start) (enough : 8 - i ≤ fuel) :
    Forms (formString values s fuel i)
      (texts values i (start - i) ++ ((if start = 0 then [[], []] else [[]]) ++
        restTokens values (start + s.maxZeroLen))) (5 * fuel) := by
  induction fuel generalizing i with
  | zero => omega
  | succ fuel ih =>
    by_cases here : i = start
    · subst here
      have next : i + (s.maxZeroLen - 1) + 1 = i + s.maxZeroLen := by omega
      have past : ∀ start', s.maxZeroStart = some start' → start' < i + s.maxZeroLen := by
        intro start' is'
        rw [is] at is'
        cases is'
        omega
      obtain ⟨str, flow, tokens, clean, short⟩ := (formString_rest values fuel fits (by omega) past).forms
      rw [← next] at flow
      refine ⟨_, formString_run (by omega) is flow, ?_, ?_, ?_⟩
      · rw [Nat.sub_self, ← tokens]
        split
        · rfl
        · rfl
      · split
        · exact clean_colon (clean_colon clean)
        · exact clean_colon clean
      · rw [length_append]
        split
        · simp only [length_cons, length_nil]
          omega
        · simp only [length_cons, length_nil]
          omega
    · have other : s.maxZeroStart ≠ some i := by
        rw [is]
        intro same
        exact here (Option.some.inj same).symm
      have group := (@ih (i + 1) (by omega) (by omega)).group (by omega) other
      have size : start - i = (start - (i + 1)) + 1 := by omega
      rw [size, texts_succ]
      exact group

/-!
The text of an IPv6 address is read back as the address, although the search for zeros reads one value
behind the array. Reading any text writes only inside the address.
-/

open Function

variable {p q : ParseState} {N : Nat} {tok : Str}

def byteOf (a : Addr) (j : Nat) : UInt8 := if inside : j < 16 then a ⟨j, inside⟩ else 0

theorem valuesOf_toNat (behind : Nat → UInt16) (a : Addr) (inside : g < 8) :
    (valuesOf behind a g).toNat = 256 * (byteOf a (2 * g)).toNat + (byteOf a (2 * g + 1)).toNat := by
  have first : 2 * g < 16 := by omega
  have second : 2 * g + 1 < 16 := by omega
  rw [valuesOf, dif_pos inside, ByteOrder.toNat_join16, byteOf, dif_pos first, byteOf, dif_pos second]

theorem bytes_zero (inside : g < 8) (zero : valuesOf behind a g = 0) :
    byteOf a (2 * g) = 0 ∧ byteOf a (2 * g + 1) = 0 := by
  have sum := valuesOf_toNat behind a inside
  have nothing : (valuesOf behind a g).toNat = 0 := by
    rw [zero]
    rfl
  refine ⟨UInt8.toNat_inj.mp ?_, UInt8.toNat_inj.mp ?_⟩
  · change _ = 0
    omega
  · change _ = 0
    omega

structure ReadsAs (a : Addr) (g : Nat) (tok : Str) : Prop where
  taken : se6CheckIPItemStr tok = true
  chars : se6IPItemStrToChars tok = (byteOf a (2 * g), byteOf a (2 * g + 1))

theorem readsAs_hexText (behind : Nat → UInt16) (a : Addr) (inside : g < 8) :
    ReadsAs a g (hexText (valuesOf behind a g)) := by
  have sum := valuesOf_toNat behind a inside
  have low := (byteOf a (2 * g + 1)).toNat_lt
  have first : (valuesOf behind a g).toNat / 256 = (byteOf a (2 * g)).toNat := by omega
  have second : (valuesOf behind a g).toNat % 256 = (byteOf a (2 * g + 1)).toNat := by omega
  obtain ⟨taken, chars⟩ := hexText_item (valuesOf behind a g)
  rw [first, second, UInt8.ofNat_toNat, UInt8.ofNat_toNat] at chars
  exact ⟨taken, chars⟩

theorem readsAs_nil (inside : g < 8) (zero : valuesOf behind a g = 0) : ReadsAs a g [] := by
  obtain ⟨first, second⟩ := bytes_zero inside zero
  refine ⟨rfl, ?_⟩
  rw [first, second]
  decide

structure At (a : Addr) (g : Nat) (p : ParseState) : Prop where
  good : p.b = true
  place : p.k = 2 * g
  value : ∀ j, p.value j = if j < 2 * g then byteOf a j else 0

theorem at_start (a : Addr) : At a 0 .start := ⟨rfl, rfl, fun j => (if_neg (Nat.not_lt_zero j)).symm⟩

theorem At.put {chars : UInt8 × UInt8} (atG : At a g p)
    (is : chars = (byteOf a (2 * g), byteOf a (2 * g + 1))) : At a (g + 1) (p.put chars) := by
  refine ⟨atG.good, ?_, ?_⟩
  · change p.k + 2 = _
    rw [atG.place]
    omega
  · intro j
    change update (update p.value p.k chars.1) (p.k + 1) chars.2 j = _
    rw [is, atG.place]
    by_cases second : j = 2 * g + 1
    · rw [second, update_self, if_pos (by omega)]
    · rw [update_of_ne second]
      by_cases first : j = 2 * g
      · rw [first, update_self, if_pos (by omega)]
      · rw [update_of_ne first, atG.value]
        by_cases before : j < 2 * g
        · rw [if_pos before, if_pos (by omega)]
        · rw [if_neg before, if_neg (by omega)]

variable {e : Nat} {toks : List Str}

theorem At.skip (atG : At a g p) (forward : g ≤ e) (inside : e ≤ 8)
    (zeros : ∀ j, g ≤ j → j < e → valuesOf behind a j = 0) (n : Nat) : At a e { p with n := n, k := 2 * e } := by
  refine ⟨atG.good, rfl, ?_⟩
  intro j
  rw [atG.value]
  by_cases before : j < 2 * g
  · rw [if_pos before, if_pos (by omega)]
  · rw [if_neg before]
    split
    · obtain ⟨first, second⟩ := bytes_zero (by omega) (zeros (j / 2) (by omega) (by omega))
      rcases Nat.mod_two_eq_zero_or_one j with even | odd
      · have same : 2 * (j / 2) = j := by omega
        rw [← first, same]
      · have same : 2 * (j / 2) + 1 = j := by omega
        rw [← second, same]
    · rfl

/-- The tokens are read as the groups from the `g`-th on, and only the outer tokens of the text are empty. -/
def Items (a : Addr) (N i g : Nat) (toks : List Str) : Prop :=
  ∀ j tok, toks[j]? = some tok → ReadsAs a (g + j) tok ∧ (i + j = 0 ∨ i + j = N - 1 ∨ tok ≠ [])

theorem tokensToIp_item (rest : List Str) (item : ReadsAs a g tok) (outer : i = 0 ∨ i = N - 1 ∨ tok ≠ []) (atG : At a g p) :
    ∃ q, tokensToIp N i (tok :: rest) p = tokensToIp N (i + 1) rest q ∧ At a (g + 1) q ∧ q.n = p.n := by
  have full : ¬ (i ≠ 0 ∧ i ≠ N - 1 ∧ tok.length = 0) := by
    rintro ⟨first, last, empty⟩
    rcases outer with is | is | is
    · exact first is
    · exact last is
    · exact is (length_eq_zero_iff.mp empty)
  refine ⟨p.put (se6IPItemStrToChars tok), ?_, atG.put item.chars, rfl⟩
  rw [tokensToIp, if_neg full, if_neg (by rw [item.taken]; exact Bool.noConfusion)]

theorem tokensToIp_items (rest : List Str) (items : Items a N i g toks) (atG : At a g p) :
    ∃ q, tokensToIp N i (toks ++ rest) p = tokensToIp N (i + toks.length) rest q ∧
      At a (g + toks.length) q ∧ q.n = p.n := by
  induction toks generalizing i g p with
  | nil => exact ⟨p, rfl, atG, rfl⟩
  | cons tok toks ih =>
    have head : ReadsAs a g tok ∧ (i = 0 ∨ i = N - 1 ∨ tok ≠ []) := items 0 tok rfl
    obtain ⟨first, outer⟩ := head
    obtain ⟨q, step, atNext, same⟩ := tokensToIp_item (toks ++ rest) first outer atG
    have later : Items a N (i + 1) (g + 1) toks := by
      intro j tok' is
      have next := items (j + 1) tok' is
      rw [Nat.add_assoc, Nat.add_comm 1, Nat.add_assoc, Nat.add_comm 1]
      exact next
    obtain ⟨r, run, atEnd, same'⟩ := ih later atNext
    have count : i + (tok :: toks).length = i + 1 + toks.length := by
      rw [length_cons]
      omega
    have groups : g + (tok :: toks).length = g + 1 + toks.length := by
      rw [length_cons]
      omega
    rw [count, groups]
    exact ⟨r, by rw [cons_append, step, run], atEnd, same'.trans same⟩

theorem items_texts (behind : Nat → UInt16) (a : Addr) (N i : Nat) {count : Nat} (inside : g + count ≤ 8) :
    Items a N i g (texts (valuesOf behind a) g count) := by
  intro j tok is
  rw [texts, List.getElem?_map, Option.map_eq_some_iff] at is
  obtain ⟨k, found, rfl⟩ := is
  obtain ⟨below, rfl⟩ := List.getElem?_eq_some_iff.mp found
  rw [length_range'] at below
  rw [getElem_range', Nat.one_mul]
  refine ⟨readsAs_hexText behind a (by omega), .inr (.inr fun empty => ?_)⟩
  have some' := (hexText_padded (valuesOf behind a (g + j))).1
  rw [empty] at some'
  cases some'

theorem items_nil (inside : g < 8) (zero : valuesOf behind a g = 0) (outer : i = 0 ∨ i = N - 1) :
    Items a N i g [[]] := by
  intro j tok is
  obtain ⟨below, rfl⟩ := List.getElem?_eq_some_iff.mp is
  rw [length_singleton] at below
  have first : j = 0 := by omega
  subst first
  rcases outer with at0 | atLast
  · exact ⟨readsAs_nil inside zero, .inl at0⟩
  · exact ⟨readsAs_nil inside zero, .inr (.inl atLast)⟩

theorem length_texts (values : Nat → UInt16) (i count : Nat) : (texts values i count).length = count := by
  rw [texts, length_map, length_range']

theorem se6StrToIP_eq {str : Str} (is : tokenLoop [ch ':'] [] str = toks) (clean : Clean str)
    (short : str.length ≤ 40) (three : 3 ≤ toks.length) (eight : toks.length ≤ 8)
    (parsed : tokensToIp toks.length 0 toks .start = q) (atEnd : At a 8 q)
    (counted : q.n = 1 ∨ q.n = 0 ∧ toks.length = 8) : (se6StrToIP str).1 = a := by
  have whole : str.take 259 = str := take_of_length_le (by omega)
  have split' : seParseTokenWithNullStr str [ch ':'] = toks := is
  have good : (if q.n ≠ 0 ∧ q.n ≠ 1 then false else if q.n = 0 ∧ toks.length ≠ 8 then false else q.b) = true := by
    rw [if_neg (by omega), if_neg (by omega), atEnd.good]
  rw [se6StrToIP, whole, seTrim_clean clean, split', parsed]
  simp only
  rw [if_pos ⟨three, eight⟩, good, if_neg Bool.noConfusion]
  funext j
  have below := j.isLt
  change q.value j = a j
  rw [atEnd.value, if_pos (by omega), byteOf, dif_pos below]

theorem tokens_all (behind : Nat → UInt16) (a : Addr) :
    ∃ q, tokensToIp 8 0 (texts (valuesOf behind a) 0 8) .start = q ∧ At a 8 q ∧ q.n = 0 := by
  have items : Items a 8 0 0 (texts (valuesOf behind a) 0 8) := items_texts behind a 8 0 (by omega)
  obtain ⟨q, run, atEnd, same⟩ := tokensToIp_items [] items (at_start a)
  rw [append_nil, length_texts] at run
  rw [length_texts] at atEnd
  exact ⟨q, run.trans (by rw [tokensToIp]), atEnd, same⟩

theorem tokens_skip {pre post : List Str} (front : Items a N 0 0 pre) (left : pre.length = g) (one : 1 ≤ g)
    (forward : g < e) (inside : e < 8) (zeros : ∀ j, g ≤ j → j < e → valuesOf behind a j = 0)
    (back : Items a N (g + 1) e post) (right : post.length = 8 - e) (size : N = g + 1 + (8 - e)) :
    ∃ q, tokensToIp N 0 (pre ++ [] :: post) .start = q ∧ At a 8 q ∧ q.n = 1 := by
  obtain ⟨p, run, atG, same⟩ := tokensToIp_items ([] :: post) front (at_start a)
  have none' : p.n = 0 := same
  rw [left, Nat.zero_add] at run atG
  have place : p.k + 2 * (8 - N + 1) = 2 * e := by
    rw [atG.place]
    omega
  have skip := atG.skip (Nat.le_of_lt forward) (by omega) zeros (p.n + 1)
  obtain ⟨q, run', atEnd, same'⟩ := tokensToIp_items [] back skip
  refine ⟨q, ?_, ?_, ?_⟩
  · rw [run, tokensToIp, if_pos ⟨by omega, by omega, rfl⟩, if_pos (by omega), place]
    rw [append_nil] at run'
    rw [run', tokensToIp]
  · have groups : e + post.length = 8 := by omega
    rw [groups] at atEnd
    exact atEnd
  · rw [same']
    change p.n + 1 = 1
    omega

theorem items_rest (i : Nat) (inside : e ≤ 8) (ended : e = 8 → valuesOf behind a 7 = 0) :
    Items a (i + (8 - min e 7)) i (min e 7) (restTokens (valuesOf behind a) e) ∧
      (restTokens (valuesOf behind a) e).length = 8 - min e 7 := by
  rw [restTokens]
  by_cases last : e = 8
  · have seven : min e 7 = 7 := by omega
    rw [if_pos last, seven]
    exact ⟨items_nil (by omega) (ended last) (.inr (by omega)), rfl⟩
  · have same : min e 7 = e := by omega
    rw [if_neg last, same, length_texts]
    exact ⟨items_texts behind a _ i (by omega), rfl⟩

theorem items_front {start : Nat} (N : Nat) (rest : List Str) (inside : start ≤ 8) (begun : start = 0 → valuesOf behind a 0 = 0) :
    ∃ pre, texts (valuesOf behind a) 0 (start - 0) ++ ((if start = 0 then [[], []] else [[]]) ++ rest) =
      pre ++ [] :: rest ∧ pre.length = max start 1 ∧ Items a N 0 0 pre := by
  by_cases first : start = 0
  · refine ⟨[[]], ?_, ?_, items_nil (by omega) (begun first) (.inl rfl)⟩
    · rw [first]
      rfl
    · rw [first]
      rfl
  · refine ⟨texts (valuesOf behind a) 0 start, ?_, ?_, items_texts behind a N 0 (by omega)⟩
    · rw [if_neg first]
      rfl
    · rw [length_texts]
      omega

theorem se6IPToStr_search (behind : Nat → UInt16) (a : Addr) :
    ∃ t, Found (valuesOf behind a) t 9 ∧ 8 ∈ (se6IPToStr behind a).trace ∧
      (se6IPToStr behind a).flow = (formString (valuesOf behind a) t 8 0).flow := by
  have nothing : Found (valuesOf behind a) ⟨none, 0, none⟩ 0 :=
    ⟨fun start is => (by cases is), fun start is => (by cases is)⟩
  obtain ⟨t, trace, is, found, reads⟩ := searchZeros_spec nothing 9
  have whole : se6IPToStr behind a = searchZeros (valuesOf behind a) (List.range' 0 9) ⟨none, 0, none⟩ >>=
      fun s => formString (valuesOf behind a) s 8 0 := rfl
  rw [whole, is, Traced.bind_next rfl]
  exact ⟨t, found, mem_append_left _ (reads 8 (by omega) (by omega)), rfl⟩

theorem text_readBack (behind : Nat → UInt16) (a : Addr) :
    ∃ str, (se6IPToStr behind a).flow = .next str ∧ (se6StrToIP str).1 = a := by
  obtain ⟨t, found, -, flow⟩ := se6IPToStr_search behind a
  rw [flow]
  cases best : t.maxZeroStart with
  | none =>
    have past : ∀ start, t.maxZeroStart = some start → start < 0 := by
      intro start is
      rw [best] at is
      cases is
    obtain ⟨str, run, tokens, clean, short⟩ :=
      (formString_rest (valuesOf behind a) 8 (Nat.zero_le 8) (Nat.le_refl 8) past).forms
    obtain ⟨q, parsed, atEnd, count⟩ := tokens_all behind a
    have eight : (restTokens (valuesOf behind a) 0).length = 8 := length_texts _ _ _
    rw [← eight] at parsed
    exact ⟨str, run, se6StrToIP_eq tokens clean short (by omega) (by omega) parsed atEnd (.inr ⟨count, eight⟩)⟩
  | some start =>
    obtain ⟨two, inside, zeros⟩ := found.run start best
    obtain ⟨str, run, tokens, clean, short⟩ :=
      (formString_before (valuesOf behind a) 8 best two (by omega) (Nat.zero_le start) (Nat.le_refl 8)).forms
    have ended : start + t.maxZeroLen = 8 → valuesOf behind a 7 = 0 := fun last => zeros 7 (by omega) (by omega)
    have begun : start = 0 → valuesOf behind a 0 = 0 := fun first => zeros 0 (by omega) (by omega)
    obtain ⟨back, right⟩ := items_rest (max start 1 + 1) (by omega) ended
    obtain ⟨pre, join, left, front⟩ := items_front (max start 1 + 1 + (8 - min (start + t.maxZeroLen) 7))
      (restTokens (valuesOf behind a) (start + t.maxZeroLen)) (by omega) begun
    rw [join] at tokens
    have between : ∀ j, max start 1 ≤ j → j < min (start + t.maxZeroLen) 7 → valuesOf behind a j = 0 :=
      fun j above below => zeros j (by omega) (by omega)
    obtain ⟨q, parsed, atEnd, count⟩ := tokens_skip front left (by omega) (by omega) (by omega) between back right rfl
    have total : (pre ++ [] :: restTokens (valuesOf behind a) (start + t.maxZeroLen)).length =
        max start 1 + 1 + (8 - min (start + t.maxZeroLen) 7) := by
      rw [length_append, length_cons, left, right]
      omega
    rw [← total] at parsed
    exact ⟨str, run, se6StrToIP_eq tokens clean short (by omega) (by omega) parsed atEnd (.inl count)⟩

theorem tokensToIp_written (size : i + toks.length = N) (eight : N ≤ 8)
    (place : p.n = 0 ∧ p.k = 2 * i ∨ p.n = 1 ∧ 2 ≤ i ∧ p.k = 2 * (i - 1) + 2 * (9 - N))
    (old : ∀ k ∈ p.written, k < 16) : ∀ k ∈ (tokensToIp N i toks p).written, k < 16 := by
  induction toks generalizing i p with
  | nil =>
    rw [tokensToIp]
    exact old
  | cons tok toks ih =>
    rw [length_cons] at size
    rw [tokensToIp]
    split
    · rename_i inner
      split
      · rename_i first
        apply ih
        · omega
        · refine .inr ⟨first, by omega, ?_⟩
          change p.k + 2 * (8 - N + 1) = _
          omega
        · exact old
      · exact old
    · split
      · exact old
      · apply ih
        · omega
        · rcases place with ⟨none', at0⟩ | ⟨one, two, at1⟩
          · refine .inl ⟨none', ?_⟩
            change p.k + 2 = _
            omega
          · refine .inr ⟨one, by omega, ?_⟩
            change p.k + 2 = _
            omega
        · intro k member
          rcases mem_append.mp member with before | new
          · exact old k before
          · rcases mem_cons.mp new with rfl | last
            · omega
            · rw [mem_singleton.mp last]
              omega

theorem se6StrToIP_written (str : Str) : ∀ k ∈ (se6StrToIP str).2, k < 16 := by
  rw [se6StrToIP]
  simp only
  split
  · rename_i count
    exact tokensToIp_written (by omega) count.2 (.inl ⟨rfl, rfl⟩) fun k member => absurd member not_mem_nil
  · exact fun k member => absurd member not_mem_nil

def TextExact (behind : Nat → UInt16) (a : Addr) : Prop :=
  (se6IPToStr behind a).Always (· < 8) ∧ ∃ str, (se6IPToStr behind a).flow = .next str ∧ (se6StrToIP str).1 = a

/-- No text is formed from the address alone, though each one is read back as the address. -/
theorem text_reads_behind (behind : Nat → UInt16) (a : Addr) : ¬ TextExact behind a ∧
    (∃ str, (se6IPToStr behind a).flow = .next str ∧ (se6StrToIP str).1 = a) ∧
      ∀ str, ∀ k ∈ (se6StrToIP str).2, k < 16 := by
  refine ⟨?_, text_readBack behind a, se6StrToIP_written⟩
  rintro ⟨reads, -⟩
  obtain ⟨t, -, last, -⟩ := se6IPToStr_search behind a
  exact Nat.lt_irrefl 8 (reads 8 last)

/-- The unspecified address has a text for each value behind the array. -/
theorem unspecified_texts : ¬ TextExact (fun _ => 0) (fun _ => 0) ∧
    (se6IPToStr (fun _ => 0) fun _ => 0).flow = .next ("0:0:0:0:0:0:0:0".toList.map ch) ∧
    (se6IPToStr (fun _ => 1) fun _ => 0).flow = .next ("::".toList.map ch) := by
  have reads : ¬ (se6IPToStr (fun _ => 0) fun _ => 0).Always (· < 8) := by decide +kernel
  refine ⟨fun exact' => reads exact'.1, ?_, ?_⟩
  · decide +kernel
  · decide +kernel

end DisasVisor.Vpn.Ip6
