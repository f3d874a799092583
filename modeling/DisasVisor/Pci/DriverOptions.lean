import Mathlib.Data.List.TakeWhile
import Mathlib.Algebra.Group.Int.Defs
import Mathlib.Algebra.Group.Nat.Defs

/-!
The integers among the options of a driver: `strtol` of `core/strtol.c`, and `pci_driver_option_get_int` of
`drivers/pci_core.c`, which brings its result into the range of an `int`.
-/

namespace DisasVisor.Pci

open List

inductive DataModel
  | ilp32
  | lp64
  deriving DecidableEq

def DataModel.bits : DataModel → ℕ
  | .ilp32 => 32
  | .lp64 => 64

inductive Sign
  | none
  | plus
  | minus
  deriving DecidableEq

def isspace (c : UInt8) : Bool := c = 32 || c = 9 || c = 12 || c = 10 || c = 13 || c = 11

def digitToNum (c : UInt8) (base : ℕ) : ℕ :=
  let n :=
    if 48 ≤ c ∧ c ≤ 57 then c.toNat - 48
    else if 65 ≤ c ∧ c ≤ 90 then c.toNat - 65 + 10
    else if 97 ≤ c ∧ c ≤ 122 then c.toNat - 97 + 10
    else base
  if n ≥ base ∨ base < 2 ∨ base > 36 then base else n

/-- What the loop of `strtol` leaves: the rest of the string is `*e`. That a multiplication and addition went
over the word is noted for the statements only. -/
structure Scan where
  val : ℕ
  rest : List UInt8
  overflow : Bool
  wrapped : Bool
  deriving DecidableEq

def strtolLoop (bits valmax base : ℕ) : List UInt8 → ℕ → Bool → Scan
  | [], val, wrapped => ⟨val, [], false, wrapped⟩
  | c :: s, val, wrapped =>
    let d := digitToNum c base
    if d = base then ⟨val, c :: s, false, wrapped⟩
    else if val > valmax / base then ⟨valmax, c :: s, true, wrapped⟩
    else
      let next := (val * base + d) % 2 ^ bits
      let wraps := wrapped || decide (2 ^ bits ≤ val * base + d)
      if next > valmax then ⟨valmax, c :: s, true, wraps⟩ else strtolLoop bits valmax base s next wraps

def signOf (c : UInt8) : Sign := if c = 43 then .plus else if c = 45 then .minus else .none

def valmaxOf (bits : ℕ) : Sign → ℕ
  | .none => 2 ^ bits - 1
  | .plus => 2 ^ (bits - 1) - 1
  | .minus => 2 ^ (bits - 1)

def detectedBase (s : List UInt8) : ℕ :=
  if s.headD 0 = 48 then if s.getD 1 0 = 88 ∨ s.getD 1 0 = 120 then 16 else 8 else 10

def toLong (bits : ℕ) (x : Int) : Int := x.bmod (2 ^ bits)

def strtolScan (bits : ℕ) (option : List UInt8) (base : ℕ) : Sign × Scan :=
  let s := option.dropWhile isspace
  let sign := signOf (s.headD 0)
  let s := if sign = .none then s else s.tail
  let b := detectedBase s
  let base := if base = 0 then b else base
  let s := if base = 16 ∧ b = 16 then s.drop 2 else s
  (sign, strtolLoop bits (valmaxOf bits sign) base s 0 false)

def strtol (bits : ℕ) (option : List UInt8) (base : ℕ) : Int × List UInt8 :=
  let (sign, scan) := strtolScan bits option base
  (toLong bits (if sign = .minus then -scan.val else scan.val), scan.rest)

/-- `ret < -0x80000000`: the literal is an `unsigned int`, and so is its negation; a `long` of the same size
becomes unsigned too. -/
def belowMin (m : DataModel) (ret : Int) : Bool :=
  match m with
  | .ilp32 => ret % 2 ^ 32 < 0x80000000
  | .lp64 => ret < 0x80000000

def pciDriverOptionGetInt (m : DataModel) (option : List UInt8) (e : Bool) (base : ℕ) : Option (Int × List UInt8) :=
  let (ret, p) := strtol m.bits option base
  if p.length = option.length then none
  else
    let ret := if belowMin m ret then toLong m.bits 0x80000000 else ret
    let ret := if ret > 0x7FFFFFFF then 0x7FFFFFFF else ret
    if e = false ∧ p ≠ [] then none else some (toLong 32 ret, p)

def Sign.text : Sign → List UInt8
  | .none => []
  | .plus => [43]
  | .minus => [45]

/-- The base that a numeral with these digits is in; `hex` is the letter of the prefix `0x`. -/
inductive Selects : ℕ → Option UInt8 → List UInt8 → ℕ → Prop
  | octal digits : Selects 8 none digits 8
  | decimal digits : Selects 10 none digits 10
  | hex letter digits : Selects 16 letter digits 16
  | hexPrefix letter digits : Selects 0 (some letter) digits 16
  | zeroFirst digits : Selects 0 none (48 :: digits) 8
  | otherFirst {d} (digits) : d ≠ 48 → Selects 0 none (d :: digits) 10

structure Numeral (base : ℕ) where
  space : List UInt8
  sign : Sign
  hex : Option UInt8
  digits : List UInt8
  radix : ℕ
  spaces : ∀ c ∈ space, isspace c = true
  letter : ∀ c ∈ hex, c = 88 ∨ c = 120
  nonempty : digits ≠ []
  valid : ∀ d ∈ digits, digitToNum d radix < radix
  selects : Selects base hex digits radix

namespace Numeral

variable {base : ℕ} (n : Numeral base)

def body : List UInt8 := (n.hex.elim [] fun c => [48, c]) ++ n.digits

def text : List UInt8 := n.space ++ (n.sign.text ++ n.body)

def magnitude : ℕ := n.digits.foldl (fun val d => val * n.radix + digitToNum d n.radix) 0

def value : Int := if n.sign = .minus then -n.magnitude else n.magnitude

end Numeral

def clamp (value : Int) : Int := max (-2 ^ 31) (min value (2 ^ 31 - 1))

/-- The numeral is read to its end, without a wrap, and its value comes out, in the range of an `int`. -/
def Reads (m : DataModel) {base : ℕ} (n : Numeral base) (e : Bool) : Prop :=
  pciDriverOptionGetInt m n.text e base = some (clamp n.value, []) ∧ (strtolScan m.bits n.text base).2.wrapped = false

/-- Negative numerals of a 32-bit `int`, and numerals of a 64-bit word that are clamped from above or are the
bound itself. -/
def Correct (m : DataModel) {base : ℕ} (n : Numeral base) : Prop :=
  match m, n.sign with
  | .ilp32, .minus => 0 < n.magnitude ∧ n.magnitude ≤ 2 ^ 31
  | .ilp32, _ => False
  | .lp64, .minus => False
  | .lp64, sign => 2 ^ 31 - 1 ≤ n.magnitude ∧ n.magnitude ≤ valmaxOf 64 sign

theorem digit_range {c : UInt8} {base : ℕ} (digit : digitToNum c base < base) :
    48 ≤ c ∧ c ≤ 57 ∨ 65 ≤ c ∧ c ≤ 90 ∨ 97 ≤ c ∧ c ≤ 122 := by
  by_contra outside
  simp only [not_or] at outside
  unfold digitToNum at digit
  rw [if_neg outside.1, if_neg outside.2.1, if_neg outside.2.2] at digit
  simp at digit

theorem not_isspace_of_range {c : UInt8} (range : 43 ≤ c) : isspace c = false := by
  rw [UInt8.le_iff_toNat_le] at range
  simp only [isspace, ← UInt8.toNat_inj, Bool.or_eq_false_iff, decide_eq_false_iff_not]
  refine ⟨⟨⟨⟨⟨?_, ?_⟩, ?_⟩, ?_⟩, ?_⟩, ?_⟩ <;> simp only [UInt8.reduceToNat] at * <;> omega

section Loop

variable {bits valmax base : ℕ}

theorem strtolLoop_wrapped (s : List UInt8) (val : ℕ) : (strtolLoop bits valmax base s val true).wrapped = true := by
  induction s generalizing val with
  | nil => rfl
  | cons c s ih =>
    unfold strtolLoop
    dsimp only
    split
    · rfl
    · split
      · rfl
      · split
        · rfl
        · exact ih _

theorem strtolLoop_overflow (s : List UInt8) (val : ℕ) (wrapped : Bool)
    (overflow : (strtolLoop bits valmax base s val wrapped).overflow = true) :
    (strtolLoop bits valmax base s val wrapped).rest ≠ [] := by
  induction s generalizing val wrapped with
  | nil => cases overflow
  | cons c s ih =>
    unfold strtolLoop at overflow ⊢
    dsimp only at overflow ⊢
    split
    · exact cons_ne_nil c s
    · split
      · exact cons_ne_nil c s
      · split
        · exact cons_ne_nil c s
        · rw [if_neg ‹_›, if_neg ‹_›, if_neg ‹_›] at overflow
          exact ih _ _ overflow

def valueFrom (base : ℕ) (digits : List UInt8) (val : ℕ) : ℕ :=
  digits.foldl (fun val d => val * base + digitToNum d base) val

theorem le_valueFrom (positive : 0 < base) (digits : List UInt8) (val : ℕ) : val ≤ valueFrom base digits val := by
  induction digits generalizing val with
  | nil => exact Nat.le_refl val
  | cons d digits ih =>
    have grows : val ≤ val * base := Nat.le_mul_of_pos_right val positive
    exact Nat.le_trans (by omega) (ih (val * base + digitToNum d base))

theorem strtolLoop_exact (positive : 0 < base) (fits : valmax < 2 ^ bits) (digits : List UInt8)
    (valid : ∀ d ∈ digits, digitToNum d base < base) (val : ℕ) (within : valueFrom base digits val ≤ valmax) :
    strtolLoop bits valmax base digits val false = ⟨valueFrom base digits val, [], false, false⟩ := by
  induction digits generalizing val with
  | nil => rfl
  | cons d digits ih =>
    have next : val * base + digitToNum d base ≤ valmax := Nat.le_trans (le_valueFrom positive digits _) within
    have small : val ≤ valmax / base := (Nat.le_div_iff_mul_le positive).mpr (by omega)
    have exact' : (val * base + digitToNum d base) % 2 ^ bits = val * base + digitToNum d base :=
      Nat.mod_eq_of_lt (by omega)
    unfold strtolLoop
    dsimp only
    rw [if_neg (Nat.ne_of_lt (valid d mem_cons_self)), if_neg (Nat.not_lt.mpr small), exact',
      if_neg (Nat.not_lt.mpr next), decide_eq_false (by omega)]
    exact ih (fun other member => valid other (mem_cons_of_mem d member)) _ within

theorem strtolLoop_beyond (digits : List UInt8)
    (valid : ∀ d ∈ digits, digitToNum d base < base) (val : ℕ) (start : val ≤ valmax)
    (beyond : valmax < valueFrom base digits val) :
    (strtolLoop bits valmax base digits val false).overflow = true ∨
      (strtolLoop bits valmax base digits val false).wrapped = true := by
  induction digits generalizing val with
  | nil => exact absurd start (Nat.not_le.mpr beyond)
  | cons d digits ih =>
    unfold strtolLoop
    dsimp only
    rw [if_neg (Nat.ne_of_lt (valid d mem_cons_self))]
    split
    · exact .inl rfl
    · by_cases wraps : 2 ^ bits ≤ val * base + digitToNum d base
      · rw [decide_eq_true wraps]
        split
        · exact .inl rfl
        · exact .inr (strtolLoop_wrapped digits _)
      · rw [decide_eq_false wraps, Nat.mod_eq_of_lt (Nat.not_le.mp wraps)]
        split
        · exact .inl rfl
        · exact ih (fun other member => valid other (mem_cons_of_mem d member)) _ (Nat.not_lt.mp ‹_›) beyond

end Loop

theorem Selects.radix_cases {base radix : ℕ} {hex : Option UInt8} {digits : List UInt8}
    (selects : Selects base hex digits radix) : radix = 8 ∨ radix = 10 ∨ radix = 16 := by
  cases selects <;> decide

theorem digit_not_x {c : UInt8} {radix : ℕ} (radixes : radix = 8 ∨ radix = 10 ∨ radix = 16)
    (digit : digitToNum c radix < radix) : ¬(c = 88 ∨ c = 120) := by
  rintro (rfl | rfl) <;> rcases radixes with rfl | rfl | rfl <;> exact absurd digit (by decide)

theorem detectedBase_digits {d : UInt8} {digits : List UInt8} {radix : ℕ}
    (radixes : radix = 8 ∨ radix = 10 ∨ radix = 16) (valid : ∀ c ∈ d :: digits, digitToNum c radix < radix) :
    detectedBase (d :: digits) = if d = 48 then 8 else 10 := by
  have second : ¬((d :: digits).getD 1 0 = 88 ∨ (d :: digits).getD 1 0 = 120) := by
    cases digits with
    | nil => exact (by decide : ¬((0 : UInt8) = 88 ∨ (0 : UInt8) = 120))
    | cons c rest => exact digit_not_x radixes (valid c (mem_cons_of_mem d mem_cons_self))
  unfold detectedBase
  rw [if_neg second]
  rfl

theorem detectedBase_prefix {c : UInt8} {digits : List UInt8} (letter : c = 88 ∨ c = 120) :
    detectedBase (48 :: c :: digits) = 16 := by
  unfold detectedBase
  exact (if_pos rfl).trans (if_pos letter)

namespace Numeral

variable {base : ℕ} (n : Numeral base)

theorem body_base : (if base = 0 then detectedBase n.body else base) = n.radix ∧
    (if n.radix = 16 ∧ detectedBase n.body = 16 then n.body.drop 2 else n.body) = n.digits := by
  obtain ⟨space, sign, hex, digits, radix, spaces, letter, nonempty, valid, selects⟩ := n
  have radixes := selects.radix_cases
  obtain ⟨d, ds, rfl⟩ := exists_cons_of_ne_nil nonempty
  have plain := detectedBase_digits radixes valid
  have not16 : detectedBase (d :: ds) ≠ 16 := by
    rw [plain]
    split <;> decide
  cases selects with
  | octal => exact ⟨rfl, if_neg fun both => not16 both.2⟩
  | decimal => exact ⟨rfl, if_neg fun both => not16 both.2⟩
  | hex =>
    cases hex with
    | none => exact ⟨rfl, if_neg fun both => not16 both.2⟩
    | some c => exact ⟨rfl, if_pos ⟨rfl, detectedBase_prefix (letter c rfl)⟩⟩
  | hexPrefix c =>
    have detected : detectedBase (48 :: c :: d :: ds) = 16 := detectedBase_prefix (letter c rfl)
    exact ⟨(if_pos rfl).trans detected, if_pos ⟨rfl, detected⟩⟩
  | zeroFirst => exact ⟨(if_pos rfl).trans (plain.trans (if_pos rfl)), if_neg fun both => not16 both.2⟩
  | otherFirst _ other => exact ⟨(if_pos rfl).trans (plain.trans (if_neg other)), if_neg fun both => not16 both.2⟩

theorem body_head : ∃ c rest, n.body = c :: rest ∧ 48 ≤ c := by
  unfold body
  cases n.hex with
  | some c => exact ⟨48, c :: n.digits, rfl, UInt8.le_refl 48⟩
  | none =>
    obtain ⟨d, ds, same⟩ := exists_cons_of_ne_nil n.nonempty
    refine ⟨d, ds, same, ?_⟩
    have range := digit_range (n.valid d (by rw [same]; exact mem_cons_self))
    simp only [UInt8.le_iff_toNat_le, UInt8.reduceToNat] at range ⊢
    omega

theorem strtolScan_text (bits : ℕ) : strtolScan bits n.text base =
    (n.sign, strtolLoop bits (valmaxOf bits n.sign) n.radix n.digits 0 false) := by
  obtain ⟨c, rest, body, range⟩ := n.body_head
  have ⟨radix, digits⟩ := n.body_base
  have behind : n.text.dropWhile isspace = n.sign.text ++ n.body := by
    unfold text
    rw [dropWhile_append_of_pos n.spaces]
    cases n.sign with
    | none =>
      rw [body]
      have notSpace := not_isspace_of_range (UInt8.le_trans (by decide) range)
      exact dropWhile_cons_of_neg (by rw [notSpace]; exact Bool.false_ne_true)
    | plus => rfl
    | minus => rfl
  have signed : signOf ((n.sign.text ++ n.body).headD 0) = n.sign ∧
      (if n.sign = .none then n.sign.text ++ n.body else (n.sign.text ++ n.body).tail) = n.body := by
    cases n.sign with
    | none =>
      rw [body]
      rw [UInt8.le_iff_toNat_le] at range
      simp only [UInt8.reduceToNat] at range
      have plus : c ≠ 43 := fun same => by rw [same] at range; exact absurd range (by decide)
      have minus : c ≠ 45 := fun same => by rw [same] at range; exact absurd range (by decide)
      exact ⟨(if_neg plus).trans (if_neg minus), rfl⟩
    | plus => exact ⟨rfl, rfl⟩
    | minus => exact ⟨rfl, rfl⟩
  unfold strtolScan
  simp only [behind, signed.1, signed.2, radix, digits]

end Numeral

def cut (m : DataModel) (ret : Int) : Int :=
  let ret := if belowMin m ret then toLong m.bits 0x80000000 else ret
  toLong 32 (if ret > 0x7FFFFFFF then 0x7FFFFFFF else ret)

theorem cut_lp64 (ret : Int) : cut .lp64 ret = 2 ^ 31 - 1 := by
  have large : (if belowMin .lp64 ret then toLong DataModel.lp64.bits 0x80000000 else ret) > 0x7FFFFFFF := by
    cases below : belowMin .lp64 ret with
    | true => exact (by decide : toLong 64 0x80000000 > 0x7FFFFFFF)
    | false =>
      have above : ¬ret < 0x80000000 := of_decide_eq_false below
      rw [if_neg Bool.false_ne_true]
      omega
  unfold cut
  dsimp only
  rw [if_pos large]
  rfl

theorem cut_ilp32 {ret : Int} (lower : -2 ^ 31 ≤ ret) (upper : ret < 2 ^ 31) :
    cut .ilp32 ret = if 0 ≤ ret then -2 ^ 31 else ret := by
  unfold cut belowMin
  split_ifs with below nonneg
  · rfl
  · simp only [decide_eq_true_eq] at below
    omega
  · simp only [decide_eq_true_eq] at below
    omega
  · have same : ret.bmod (2 ^ 32) = ret := Int.bmod_eq_of_le (by omega) (by omega)
    dsimp only
    rw [if_neg (by omega)]
    exact same

section Result

variable {base : ℕ} {n : Numeral base} {m : DataModel} {e : Bool}

theorem valmaxOf_lt (m : DataModel) (sign : Sign) : valmaxOf m.bits sign < 2 ^ m.bits := by
  cases m <;> cases sign <;> decide

theorem Numeral.radix_pos (n : Numeral base) : 0 < n.radix := by
  have radixes := n.selects.radix_cases
  omega

def Numeral.long (n : Numeral base) (m : DataModel) : Int := toLong m.bits n.value

theorem reads_iff (within : n.magnitude ≤ valmaxOf m.bits n.sign) : Reads m n e ↔ cut m (n.long m) = clamp n.value := by
  have scan : strtolScan m.bits n.text base = (n.sign, ⟨n.magnitude, [], false, false⟩) := by
    rw [n.strtolScan_text]
    exact congrArg _ (strtolLoop_exact n.radix_pos (valmaxOf_lt m n.sign) n.digits n.valid 0 within)
  have some' : n.text ≠ [] := by
    obtain ⟨c, rest, body, -⟩ := n.body_head
    unfold Numeral.text
    rw [body]
    simp
  have length : ([] : List UInt8).length ≠ n.text.length := fun same => some' (length_eq_zero_iff.mp same.symm)
  have ran : pciDriverOptionGetInt m n.text e base = some (cut m (n.long m), []) := by
    unfold pciDriverOptionGetInt strtol
    rw [scan]
    dsimp only
    rw [if_neg length, if_neg fun stops => stops.2 rfl]
    rfl
  unfold Reads
  rw [ran, scan]
  simp

theorem not_reads (beyond : valmaxOf m.bits n.sign < n.magnitude) : ¬Reads m n e := by
  rintro ⟨result, unwrapped⟩
  unfold pciDriverOptionGetInt strtol at result
  rw [n.strtolScan_text] at result unwrapped
  dsimp only at result unwrapped
  rcases @strtolLoop_beyond m.bits _ _ n.digits n.valid 0 (Nat.zero_le _) beyond with overflow | wraps
  · split at result
    · cases result
    · split at result
      · cases result
      · have atEnd := congrArg Prod.snd (Option.some.inj result)
        exact strtolLoop_overflow n.digits 0 false overflow atEnd
  · rw [unwrapped] at wraps
    cases wraps

/-- Only large numerals come out right of a 64-bit `long`, and only negative ones of a 32-bit `long`. -/
theorem option_get_int_exact (m : DataModel) {base : ℕ} (n : Numeral base) (e : Bool) : Reads m n e ↔ Correct m n := by
  by_cases within : n.magnitude ≤ valmaxOf m.bits n.sign
  · rw [reads_iff within]
    cases m with
    | lp64 =>
      rw [cut_lp64]
      unfold Correct clamp Numeral.value
      cases sign : n.sign <;> rw [sign] at within <;> simp only [if_true, if_false, reduceCtorEq]
      · exact ⟨fun same => ⟨by omega, within⟩, fun large => by omega⟩
      · exact ⟨fun same => ⟨by omega, within⟩, fun large => by omega⟩
      · exact ⟨fun same => by omega, False.elim⟩
    | ilp32 =>
      have range : -2 ^ 31 ≤ n.long .ilp32 ∧ n.long .ilp32 < 2 ^ 31 :=
        ⟨Int.le_bmod (by decide), Int.bmod_lt (by decide)⟩
      rw [cut_ilp32 range.1 range.2]
      unfold Correct clamp Numeral.long toLong Numeral.value
      have bits : DataModel.ilp32.bits = 32 := rfl
      cases sign : n.sign <;> rw [sign] at within <;>
        simp only [if_true, if_false, reduceCtorEq, bits, valmaxOf] at within ⊢
      · refine iff_of_false (fun same => ?_) not_false
        rw [Int.bmod_def] at same
        split at same <;> omega
      · refine iff_of_false (fun same => ?_) not_false
        rw [Int.bmod_eq_of_le (by omega) (by omega)] at same
        omega
      · rw [Int.bmod_eq_of_le (by omega) (by omega)]
        exact ⟨fun same => by omega, fun small => by omega⟩
  · have beyond := Nat.not_le.mp within
    refine iff_of_false (not_reads beyond) fun correct => ?_
    unfold Correct at correct
    cases m <;> cases sign : n.sign <;> simp only [sign, DataModel.bits, valmaxOf] at correct beyond <;> omega

end Result

/-- `1`, which is read as the largest integer by a 64-bit build and as the smallest by a 32-bit one. -/
def one : Numeral 10 where
  space := []
  sign := .none
  hex := none
  digits := [49]
  radix := 10
  spaces := by simp
  letter := by simp
  nonempty := by simp
  valid := by simp [digitToNum]
  selects := .decimal _

theorem one_misread : pciDriverOptionGetInt .lp64 one.text true 10 = some (2147483647, []) ∧
    pciDriverOptionGetInt .ilp32 one.text true 10 = some (-2147483648, []) ∧
    ¬Reads .lp64 one true ∧ ¬Reads .ilp32 one true := by
  have wide : pciDriverOptionGetInt .lp64 one.text true 10 = some (2147483647, []) := by decide
  have narrow : pciDriverOptionGetInt .ilp32 one.text true 10 = some (-2147483648, []) := by decide
  have value : clamp one.value = 1 := by decide
  refine ⟨wide, narrow, ?_, ?_⟩
  · rintro ⟨same, -⟩
    rw [wide, value] at same
    simp at same
  · rintro ⟨same, -⟩
    rw [narrow, value] at same
    simp at same

end DisasVisor.Pci
