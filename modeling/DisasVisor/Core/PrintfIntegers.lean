import DisasVisor.Core.Printf

/-!
Integers as the C standard wants them to be written.
-/

namespace DisasVisor.Core.Printf

open List
open Int32 (toInt_inj toInt_sub toInt_ofNat_of_lt ofNat_add)

variable {val b k w p : ℕ} {f : Flags} {base : Base} {chars : List UInt8}

def prefixOf (val : ℕ) (f : Flags) : Base → List UInt8
  | .decimal =>
    match f.sign with
    | some false => if f.positiveSign then str "+" else if f.positiveBlank then str " " else []
    | some true => str "-"
    | none => []
  | .octal => []
  | .hexadecimal capital => if f.alternateForm ∧ val ≠ 0 then str (if capital then "0X" else "0x") else []

def Base.numeral (base : Base) (val : ℕ) : List UInt8 :=
  (Nat.digits base.radix val).reverse.map fun d => base.chars.getD d 0

/-- The precision is the least number of digits, and 1 where there is none; the alternate form of an octal number
begins with a zero. -/
def leadingZeros (val : ℕ) (f : Flags) (p : ℕ) (base : Base) : ℕ :=
  let zeros := (if f.hasPrecision then p else 1) - (base.numeral val).length
  if base = .octal ∧ f.alternateForm ∧ zeros = 0 then 1 else zeros

def standardText (val : ℕ) (f : Flags) (w p : ℕ) (base : Base) : List UInt8 :=
  let left := prefixOf val f base
  let number := List.replicate (leadingZeros val f p base) (ch '0') ++ base.numeral val
  let padding := if f.hasWidth then w - (left ++ number).length else 0
  if f.leftAdjusted then left ++ number ++ List.replicate padding (ch ' ')
  else if f.zeroPadded ∧ ¬ f.hasPrecision then left ++ List.replicate padding (ch '0') ++ number
  else List.replicate padding (ch ' ') ++ left ++ number

theorem digitLoop_eq (sub digit val : ℕ) (some' : 0 < sub) :
    digitLoop sub digit val = (digit + val / sub, val % sub) := by
  fun_induction digitLoop sub digit val with
  | case1 digit val enough ih =>
    rw [ih, Nat.div_eq_sub_div some' enough.2, Nat.mod_eq_sub_mod enough.2, Nat.add_right_comm, Nat.add_assoc]
  | case2 digit val less =>
    have below : val < sub := by omega
    rw [Nat.div_eq_of_lt below, Nat.mod_eq_of_lt below, Nat.add_zero]

theorem subtrahends_succ (b k : ℕ) : subtrahends b (k + 1) = b ^ k :: subtrahends b k := by
  simp [subtrahends, range_succ]

theorem digitsLoop_eq (two : 2 ≤ b) (k : ℕ) : ∀ val, val < b ^ k →
    digitsLoop chars (subtrahends b k) val =
      (List.range k).reverse.map fun i => chars.getD (val / b ^ i % b) 0 := by
  induction k with
  | zero => exact fun _ _ => rfl
  | succ k ih =>
    intro val below
    have positive : 0 < b ^ k := Nat.pow_pos (by omega)
    have digit : val / b ^ k % b = val / b ^ k := Nat.mod_eq_of_lt (Nat.div_lt_of_lt_mul (by rwa [← Nat.pow_succ]))
    rw [subtrahends_succ, digitsLoop, if_neg (by omega), digitLoop_eq _ _ _ positive]
    dsimp only
    rw [ih _ (Nat.mod_lt _ positive), range_succ, reverse_append, reverse_singleton,
      singleton_append, map_cons, digit, Nat.zero_add]
    congr 1
    refine map_congr_left fun i member => ?_
    rw [mem_reverse, mem_range] at member
    have split : b ^ k = b ^ i * b ^ (k - i) := by rw [← Nat.pow_add, Nat.add_sub_cancel' (Nat.le_of_lt member)]
    rw [split, Nat.mod_mul_right_div_self, Nat.mod_mod_of_dvd]
    exact dvd_pow_self b (by omega)

theorem dropWhile_subtrahends (some' : val ≠ 0) (k : ℕ) (below : val < b ^ k) :
    (subtrahends b k).dropWhile (fun s => val < s) = subtrahends b (Nat.log b val + 1) := by
  induction k with
  | zero =>
    rw [Nat.pow_zero] at below
    omega
  | succ k ih =>
    rw [subtrahends_succ, dropWhile_cons]
    by_cases less : val < b ^ k
    · rw [if_pos (decide_eq_true less), ih less]
    · rw [if_neg (by simpa using less), Nat.log_eq_of_pow_le_of_lt_pow (Nat.not_lt.mp less) below, subtrahends_succ]

theorem digits_eq (two : 2 ≤ b) (some' : val ≠ 0) :
    Nat.digits b val = (List.range (Nat.log b val + 1)).map fun i => val / b ^ i % b := by
  have length := Nat.length_digits b val (by omega) some'
  refine ext_getElem (by rw [length, length_map, length_range]) fun i inside _ => ?_
  rw [← getD_eq_getElem _ 0 inside, Nat.getD_digits val i two, getElem_map, getElem_range]

theorem valconv_eq (two : 2 ≤ b) (below : val < b ^ k) (chars : List UInt8) :
    valconv val (subtrahends b k) chars =
      if val = 0 then [ch '0'] else (Nat.digits b val).reverse.map fun d => chars.getD d 0 := by
  unfold valconv
  split
  · rfl
  · rename_i some'
    rw [dropWhile_subtrahends some' k below, digitsLoop_eq two _ _ (Nat.lt_pow_succ_log_self two val),
      digits_eq two some', ← map_reverse, map_map]
    rfl

theorem Base.two (base : Base) : 2 ≤ base.radix := by
  cases base with
  | decimal => decide
  | octal => decide
  | hexadecimal => exact (by decide : 2 ≤ 16)

theorem numeral_zero (base : Base) : base.numeral 0 = [] := by
  rw [Base.numeral, Nat.digits_zero]
  rfl

theorem valconv_numeral (base : Base) (below : val < 2 ^ 64) :
    valconv val base.sub base.chars = List.replicate (if val = 0 then 1 else 0) (ch '0') ++ base.numeral val := by
  have digits : valconv val base.sub base.chars = if val = 0 then [ch '0'] else base.numeral val := by
    cases base with
    | decimal => exact valconv_eq (by decide) (by omega) _
    | octal => exact valconv_eq (by decide) (by omega) _
    | hexadecimal => exact valconv_eq (by decide) (by omega) _
  rw [digits]
  split
  · rename_i zero
    rw [zero, numeral_zero]
    rfl
  · rfl

theorem length_numeral (base : Base) (below : val < 2 ^ 64) : (base.numeral val).length ≤ 22 := by
  rw [Base.numeral, length_map, length_reverse, Nat.digits_length_le_iff base.two]
  cases base with
  | decimal => exact Nat.lt_trans below (by decide)
  | octal => exact Nat.lt_trans below (by decide)
  | hexadecimal => exact Nat.lt_trans below (by decide : 2 ^ 64 < 16 ^ 22)

theorem numeral_pos (base : Base) (some' : val ≠ 0) : 0 < (base.numeral val).length := by
  rw [Base.numeral, length_map, length_reverse]
  exact length_pos_iff.mpr (Nat.digits_ne_nil_iff_ne_zero.mpr some')

theorem times_ofNat {n : ℕ} (small : n < 2 ^ 31) (c : UInt8) : times (Int32.ofNat n) c = List.replicate n c := by
  have same : (Int32.ofNat n).toUInt32.toNat = n := by
    simp
    omega
  rw [times, same]

theorem ofNat_sub {m n : ℕ} (le : n ≤ m) (small : m < 2 ^ 31) :
    Int32.ofNat m - Int32.ofNat n = Int32.ofNat (m - n) := by
  apply toInt_inj.mp
  rw [toInt_sub, toInt_ofNat_of_lt small, toInt_ofNat_of_lt (by omega),
    toInt_ofNat_of_lt (by omega), Int.bmod_def]
  omega

theorem ofNat_lt {m n : ℕ} (first : m < 2 ^ 31) (second : n < 2 ^ 31) : Int32.ofNat m < Int32.ofNat n ↔ m < n := by
  rw [Int32.lt_iff_toInt_lt, toInt_ofNat_of_lt first, toInt_ofNat_of_lt second]
  omega

theorem spaces_eq {c : Bool} {m n : ℕ} (first : m < 2 ^ 31) (second : c = true → n < 2 ^ 31) :
    (if c = true ∧ Int32.ofNat m > Int32.ofNat n then Int32.ofNat m - Int32.ofNat n else 0) =
      Int32.ofNat (if c then m - n else 0) := by
  cases c with
  | false => simp
  | true =>
    rw [if_pos rfl]
    by_cases more : n < m
    · rw [if_pos ⟨rfl, (ofNat_lt (second rfl) first).mpr more⟩, ofNat_sub (Nat.le_of_lt more) first]
    · rw [if_neg fun both => more ((ofNat_lt (second rfl) first).mp both.2), Nat.sub_eq_zero_of_le (Nat.not_lt.mp more)]
      rfl

def zerosFor (val : ℕ) (f : Flags) (p : ℕ) (base : Base) : ℕ :=
  if f.hasPrecision then p - (valconv val base.sub base.chars).length else 0

def octalZero (val : ℕ) (f : Flags) (p : ℕ) (base : Base) : ℕ :=
  if base = .octal ∧ f.alternateForm ∧ val ≠ 0 ∧ zerosFor val f p base = 0 then 1 else 0

theorem leadingZeros_eq (below : val < 2 ^ 64) (nonempty : ¬ (f.hasPrecision = true ∧ p = 0 ∧ val = 0)) :
    leadingZeros val f p base = octalZero val f p base + zerosFor val f p base + if val = 0 then 1 else 0 := by
  have length := congrArg List.length (valconv_numeral base below)
  rw [length_append, length_replicate] at length
  unfold leadingZeros octalZero zerosFor
  dsimp only
  rw [length]
  by_cases zero : val = 0
  · have none' : (base.numeral 0).length = 0 := by
      rw [numeral_zero]
      rfl
    cases hp : f.hasPrecision with
    | false => simp [zero, none']
    | true =>
      have some' : p ≠ 0 := fun none' => nonempty ⟨hp, none', zero⟩
      simp [zero, none', some']
      omega
  · have some' := numeral_pos base zero
    have one : 1 - (base.numeral val).length = 0 := by omega
    rw [if_neg zero, Nat.zero_add, Nat.add_zero]
    cases hp : f.hasPrecision with
    | false => simp [zero, one]
    | true =>
      by_cases whole : p - (base.numeral val).length = 0
      · simp [zero, whole]
      · simp [zero, whole]

theorem leftbuf_eq (small : p < 2 ^ 31) : leftbuf val f (Int32.ofNat (zerosFor val f p base)) base =
    prefixOf val f base ++ List.replicate (octalZero val f p base) (ch '0') := by
  have bound : zerosFor val f p base < 2 ^ 31 := by
    unfold zerosFor
    split <;> omega
  have zero : Int32.ofNat (zerosFor val f p base) = 0 ↔ zerosFor val f p base = 0 := by
    rw [← toInt_inj, toInt_ofNat_of_lt bound]
    exact Int.natCast_eq_zero
  cases base with
  | decimal => simp [leftbuf, prefixOf, octalZero] <;> rfl
  | octal =>
    unfold octalZero
    by_cases adds : f.alternateForm = true ∧ val ≠ 0 ∧ zerosFor val f p .octal = 0
    · rw [leftbuf, if_pos ⟨adds.1, adds.2.1, zero.mpr adds.2.2⟩, if_pos ⟨rfl, adds⟩]
      rfl
    · rw [leftbuf, if_neg (fun both => adds ⟨both.1, both.2.1, zero.mp both.2.2⟩), if_neg (fun both => adds both.2)]
      rfl
  | hexadecimal capital => simp [leftbuf, prefixOf, octalZero]

def textLength (val : ℕ) (f : Flags) (p : ℕ) (base : Base) : ℕ :=
  (prefixOf val f base).length + octalZero val f p base + zerosFor val f p base +
    (valconv val base.sub base.chars).length

theorem length_prefixOf (val : ℕ) (f : Flags) (base : Base) : (prefixOf val f base).length ≤ 2 := by
  cases base with
  | decimal =>
    unfold prefixOf
    dsimp only
    rcases f.sign with _ | _ | _
    · exact Nat.zero_le 2
    · cases f.positiveSign <;> cases f.positiveBlank <;> decide
    · exact (by decide : 1 ≤ 2)
  | octal => exact Nat.zero_le 2
  | hexadecimal capital =>
    unfold prefixOf
    dsimp only
    split
    · cases capital <;> decide
    · exact Nat.zero_le 2

/-- `do_conversion_int` behind its first `return`, in the numbers of the standard. -/
theorem doConversionInt_text {val : UInt64} (w : ℕ) (base : Base) (small : p < 2 ^ 31)
    (nonempty : ¬ (f.hasPrecision = true ∧ p = 0 ∧ val = 0)) :
    let spaces := if f.hasWidth = true ∧ Int32.ofNat w > Int32.ofNat (textLength val.toNat f p base) then
      Int32.ofNat w - Int32.ofNat (textLength val.toNat f p base) else 0
    let left := prefixOf val.toNat f base ++ List.replicate (octalZero val.toNat f p base) (ch '0')
    let digits := valconv val.toNat base.sub base.chars
    doConversionInt val f (Int32.ofNat w) (Int32.ofNat p) (some base) =
      if f.leftAdjusted then left ++ List.replicate (zerosFor val.toNat f p base) (ch '0') ++ digits ++
        times spaces (ch ' ')
      else if f.zeroPadded = true ∧ ¬ f.hasPrecision = true then left ++
        times (Int32.ofNat (zerosFor val.toNat f p base) + spaces) (ch '0') ++ digits
      else times spaces (ch ' ') ++ left ++ List.replicate (zerosFor val.toNat f p base) (ch '0') ++ digits := by
  have below := val.toNat_lt
  have length := congrArg List.length (valconv_numeral base below)
  have numeral := length_numeral base below
  rw [length_append, length_replicate] at length
  have few : (valconv val.toNat base.sub base.chars).length < 2 ^ 31 := by
    rw [length]
    split <;> omega
  have none' : times 0 = fun _ => [] := rfl
  have bound : zerosFor val.toNat f p base < 2 ^ 31 := by
    unfold zerosFor
    split <;> omega
  have zeroPrecision : Int32.ofNat p = 0 ↔ p = 0 := by
    rw [← toInt_inj, toInt_ofNat_of_lt small]
    exact Int.natCast_eq_zero
  have zeros : (if f.hasPrecision = true ∧ Int32.ofNat p > Int32.ofNat (valconv val.toNat base.sub base.chars).length
      then Int32.ofNat p - Int32.ofNat (valconv val.toNat base.sub base.chars).length else 0) =
      Int32.ofNat (zerosFor val.toNat f p base) := spaces_eq small fun _ => few
  intro spaces left digits
  unfold doConversionInt
  dsimp only
  rw [if_neg (by rwa [zeroPrecision]), zeros]
  rw [leftbuf_eq small, ← ofNat_add, ← ofNat_add, length_append, length_replicate]
  change times (if _ then 0 else if _ then 0 else spaces) _ ++ left ++
    times (if _ then _ + (if _ then 0 else spaces) else _) _ ++
    digits ++ times (if _ then spaces else 0) _ = _
  cases f.leftAdjusted with
  | true =>
    rw [if_pos rfl, if_pos rfl, if_pos rfl, ite_self, none', Int32.add_zero, ite_self, times_ofNat bound]
    rfl
  | false =>
    rw [if_neg Bool.false_ne_true, if_neg Bool.false_ne_true, if_neg Bool.false_ne_true, none', append_nil]
    split
    · rfl
    · rw [times_ofNat bound]

theorem number_eq (base : Base) (below : val < 2 ^ 64)
    (nonempty : ¬ (f.hasPrecision = true ∧ p = 0 ∧ val = 0)) (padding : ℕ) :
    prefixOf val f base ++ List.replicate (octalZero val f p base) (ch '0') ++
        List.replicate (zerosFor val f p base + padding) (ch '0') ++ valconv val base.sub base.chars =
      prefixOf val f base ++ List.replicate padding (ch '0') ++
        (List.replicate (leadingZeros val f p base) (ch '0') ++ base.numeral val) := by
  rw [valconv_numeral base below, leadingZeros_eq below nonempty]
  simp only [append_assoc, append_cancel_left_eq]
  simp only [← append_assoc, replicate_append_replicate, append_cancel_right_eq]
  congr 1
  omega

theorem length_text (below : val < 2 ^ 64) (nonempty : ¬ (f.hasPrecision = true ∧ p = 0 ∧ val = 0)) :
    (prefixOf val f base ++ (List.replicate (leadingZeros val f p base) (ch '0') ++ base.numeral val)).length =
      textLength val f p base := by
  have same := congrArg List.length (number_eq base below nonempty 0)
  rw [replicate_zero, append_nil, Nat.add_zero] at same
  rw [← same]
  simp only [length_append, length_replicate]
  rfl

theorem doConversionInt_standard {val : UInt64} (width : w < 2 ^ 31) (small : p < 2 ^ 31)
    (nonempty : ¬ (f.hasPrecision = true ∧ p = 0 ∧ val = 0))
    (fits : f.hasWidth = true → textLength val.toNat f p base < 2 ^ 31) :
    doConversionInt val f (Int32.ofNat w) (Int32.ofNat p) (some base) = standardText val.toNat f w p base := by
  have below := val.toNat_lt
  have nonempty' : ¬ (f.hasPrecision = true ∧ p = 0 ∧ val.toNat = 0) :=
    fun all => nonempty ⟨all.1, all.2.1, UInt64.toNat_inj.mp all.2.2⟩
  have number := number_eq base below nonempty'
  have plain := number 0
  rw [replicate_zero, append_nil, Nat.add_zero] at plain
  have text := doConversionInt_text w base small nonempty
  dsimp only at text
  rw [spaces_eq width fits] at text
  rw [text, standardText, length_text below nonempty']
  generalize padding : (if f.hasWidth = true then w - textLength val.toNat f p base else 0) = n
  have few : n < 2 ^ 31 := by
    rw [← padding]
    split <;> omega
  split
  · rw [times_ofNat few, plain]
  · split
    · rename_i zeros
      have none' : zerosFor val.toNat f p base = 0 := if_neg zeros.2
      rw [none', ← ofNat_add, Nat.zero_add, times_ofNat few, ← number n, none', Nat.zero_add]
    · rw [times_ofNat few, append_assoc _ _ (_ ++ _), ← plain]
      simp only [append_assoc]

theorem textLength_le (f : Flags) (base : Base) (below : val < 2 ^ 64) (small : p < 2 ^ 31) :
    textLength val f p base ≤ 2 ^ 31 + 1 ∧
      (f.hasPrecision = true → (prefixOf val f base).length + p ≤ textLength val f p base) ∧
      (2 ^ 31 ≤ textLength val f p base → f.hasPrecision = true ∧
        textLength val f p base = (prefixOf val f base).length + p) := by
  have left := length_prefixOf val f base
  have length := congrArg List.length (valconv_numeral base below)
  have numeral := length_numeral base below
  rw [length_append, length_replicate] at length
  have few : (valconv val base.sub base.chars).length ≤ 23 := by
    rw [length]
    split <;> omega
  have zeros : f.hasPrecision = false → zerosFor val f p base = 0 := fun no => if_neg (by rw [no]; decide)
  have zeros' : f.hasPrecision = true → zerosFor val f p base = p - (valconv val base.sub base.chars).length :=
    fun yes => if_pos yes
  have octal : octalZero val f p base = 1 ∧ zerosFor val f p base = 0 ∨ octalZero val f p base = 0 := by
    unfold octalZero
    split
    · rename_i all
      exact .inl ⟨rfl, all.2.2.2⟩
    · exact .inr rfl
  unfold textLength
  cases hp : f.hasPrecision with
  | false =>
    have none' := zeros hp
    exact ⟨by omega, fun no => (Bool.false_ne_true no).elim, fun large => by omega⟩
  | true =>
    have some' := zeros' hp
    exact ⟨by omega, fun _ => by omega, fun large => ⟨rfl, by omega⟩⟩

theorem doConversionInt_wraps {val : UInt64} (width : w < 2 ^ 31) (small : p < 2 ^ 31)
    (nonempty : ¬ (f.hasPrecision = true ∧ p = 0 ∧ val = 0)) (hasWidth : f.hasWidth = true)
    (large : 2 ^ 31 ≤ textLength val.toNat f p base) :
    doConversionInt val f (Int32.ofNat w) (Int32.ofNat p) (some base) ≠ standardText val.toNat f w p base := by
  have below := val.toNat_lt
  have nonempty' : ¬ (f.hasPrecision = true ∧ p = 0 ∧ val.toNat = 0) :=
    fun all => nonempty ⟨all.1, all.2.1, UInt64.toNat_inj.mp all.2.2⟩
  obtain ⟨most, -, precision⟩ := textLength_le f base below small
  obtain ⟨hasPrecision, -⟩ := precision large
  have text := doConversionInt_text w base small nonempty
  dsimp only at text
  have total : (Int32.ofNat (textLength val.toNat f p base)).toInt = textLength val.toNat f p base - 2 ^ 32 := by
    have size : Int32.size = 2 ^ 32 := rfl
    rw [Int32.toInt_ofNat', size, Int.bmod_def]
    omega
  have more : Int32.ofNat w > Int32.ofNat (textLength val.toNat f p base) := by
    rw [gt_iff_lt, Int32.lt_iff_toInt_lt, total, toInt_ofNat_of_lt width]
    omega
  have noZeros : ¬ (f.zeroPadded = true ∧ ¬ f.hasPrecision = true) := fun zeros => zeros.2 hasPrecision
  rw [if_pos (And.intro hasWidth more), if_neg noZeros] at text
  generalize spaces : Int32.ofNat w - Int32.ofNat (textLength val.toNat f p base) = n at text
  have some' : n.toUInt32.toNat ≠ 0 := by
    intro none'
    have zero : n.toUInt32.toInt32 = 0 := congrArg UInt32.toInt32 (UInt32.toNat_inj.mp none')
    rw [Int32.toInt32_toUInt32, ← spaces, ← toInt_inj, toInt_sub, total, toInt_ofNat_of_lt width,
      Int.bmod_def] at zero
    have zero' : (0 : Int32).toInt = 0 := rfl
    omega
  have length : (doConversionInt val f (Int32.ofNat w) (Int32.ofNat p) (some base)).length =
      textLength val.toNat f p base + n.toUInt32.toNat := by
    rw [text]
    split
    · simp only [length_append, length_replicate, times, textLength]
    · simp only [length_append, length_replicate, times, textLength]
      omega
  have standard : (standardText val.toNat f w p base).length = textLength val.toNat f p base := by
    have none' : w - textLength val.toNat f p base = 0 := by omega
    rw [standardText, length_text below nonempty', if_pos hasWidth, none', replicate_zero, replicate_zero,
      append_nil, append_nil, nil_append, if_neg noZeros, ite_self]
    exact length_text below nonempty'
  intro same
  rw [same, standard] at length
  omega

def digitValue (c : UInt8) : ℕ :=
  if ch '0' ≤ c ∧ c ≤ ch '9' then (c - ch '0').toNat
  else if ch 'a' ≤ c ∧ c ≤ ch 'f' then (c - ch 'a').toNat + 10
  else if ch 'A' ≤ c ∧ c ≤ ch 'F' then (c - ch 'A').toNat + 10
  else 16

def magnitude (radix : ℕ) (text : List UInt8) : ℕ :=
  (text.takeWhile fun c => digitValue c < radix).foldl (fun n c => n * radix + digitValue c) 0

/-- A number in a text, as `strtol` reads it. -/
def readBack (radix : ℕ) (text : List UInt8) : ℤ :=
  match text.dropWhile (· = ch ' ') with
  | [] => 0
  | c :: rest =>
    if c = ch '-' then -magnitude radix rest
    else if c = ch '+' then magnitude radix rest
    else if radix = 16 ∧ c = ch '0' ∧ (rest.head? = some (ch 'x') ∨ rest.head? = some (ch 'X')) then
      magnitude radix rest.tail
    else magnitude radix (c :: rest)

theorem digitValue_chars (base : Base) : ∀ d < base.radix, digitValue (base.chars.getD d 0) = d := by
  rcases base with _ | _ | _ | _
  · decide
  · decide
  · decide
  · decide

theorem digitValue_number (base : Base) (val z : ℕ) : ∀ c ∈ List.replicate z (ch '0') ++ base.numeral val,
    digitValue c < base.radix := by
  intro c member
  rcases mem_append.mp member with leading | inside
  · have zero : digitValue (ch '0') = 0 := by decide
    rw [eq_of_mem_replicate leading, zero]
    exact Nat.lt_of_lt_of_le Nat.zero_lt_two base.two
  · obtain ⟨d, among, rfl⟩ := mem_map.mp inside
    have less := Nat.digits_lt_base base.two (mem_reverse.mp among)
    rw [digitValue_chars base d less]
    exact less

theorem Base.radix_le (base : Base) : base.radix ≤ 16 := by
  cases base with
  | decimal => decide
  | octal => decide
  | hexadecimal => exact (by decide : 16 ≤ 16)

theorem magnitude_number (base : Base) (val z n : ℕ) :
    magnitude base.radix (List.replicate z (ch '0') ++ base.numeral val ++ List.replicate n (ch ' ')) = val := by
  have zero : digitValue (ch '0') = 0 := by decide
  have blank : ¬ digitValue (ch ' ') < base.radix := Nat.not_lt.mpr base.radix_le
  have digit := digitValue_number base val z
  have behind : (List.replicate n (ch ' ')).takeWhile (fun c => digitValue c < base.radix) = [] := by
    cases n with
    | zero => rfl
    | succ n => rw [replicate_succ, takeWhile_cons, if_neg (by simpa using blank)]
  have leading : ∀ z, (List.replicate z (ch '0')).foldl (fun n c => n * base.radix + digitValue c) 0 = 0 := by
    intro z
    induction z with
    | zero => rfl
    | succ z ih => rw [replicate_succ, foldl_cons, zero, Nat.zero_mul, ih]
  have value : (base.numeral val).foldl (fun n c => n * base.radix + digitValue c) 0 = val := by
    have digits := Nat.ofDigits_digits base.radix val
    rw [Nat.ofDigits_eq_foldr] at digits
    rw [Base.numeral, foldl_map, foldl_reverse]
    refine (foldr_ext _ _ _ fun d among n => ?_).trans digits
    rw [digitValue_chars base d (Nat.digits_lt_base base.two among), Nat.mul_comm, Nat.add_comm]
    rfl
  rw [magnitude, takeWhile_append_of_pos (by simpa using digit), behind, append_nil, foldl_append, leading, value]

theorem readBack_cons {radix : ℕ} {c : UInt8} (visible : c ≠ ch ' ') (rest : List UInt8) :
    readBack radix (c :: rest) =
    if c = ch '-' then -(magnitude radix rest : ℤ)
    else if c = ch '+' then magnitude radix rest
    else if radix = 16 ∧ c = ch '0' ∧ (rest.head? = some (ch 'x') ∨ rest.head? = some (ch 'X')) then
      magnitude radix rest.tail
    else magnitude radix (c :: rest) := by
  rw [readBack, dropWhile_cons, if_neg (by simpa using visible)]

theorem readBack_number (base : Base) {number : List UInt8}
    (digit : ∀ c ∈ number, digitValue c < base.radix) (n : ℕ) :
    readBack base.radix (number ++ List.replicate n (ch ' ')) =
      magnitude base.radix (number ++ List.replicate n (ch ' ')) := by
  have le := base.radix_le
  have other : ∀ c ∈ number, ∀ o, digitValue o = 16 → c ≠ o := by
    intro c member o not rfl
    have less := digit c member
    omega
  cases number with
  | nil =>
    have none' := magnitude_number base 0 0 n
    rw [numeral_zero, replicate_zero, nil_append, nil_append] at none'
    rw [nil_append, none', readBack, dropWhile_replicate]
    simp
  | cons c rest =>
    have first := fun o => other c mem_cons_self o
    rw [cons_append, readBack_cons (first (ch ' ') (by decide)),
      if_neg (first (ch '-') (by decide)), if_neg (first (ch '+') (by decide)), if_neg]
    rintro ⟨-, -, letter⟩
    have next : ∀ o, digitValue o = 16 → ch ' ' ≠ o → (rest ++ List.replicate n (ch ' ')).head? ≠ some o := by
      intro o not blank is
      cases rest with
      | nil =>
        have among := mem_of_mem_head? is
        exact blank (eq_of_mem_replicate among).symm
      | cons d rest => exact other d (by simp) o not (Option.some.inj is)
    exact letter.elim (next _ (by decide) (by decide)) (next _ (by decide) (by decide))

theorem standardText_parts (val : ℕ) (f : Flags) (w p : ℕ) (base : Base) : ∃ a z n, standardText val f w p base =
    List.replicate a (ch ' ') ++ (prefixOf val f base ++
      (List.replicate z (ch '0') ++ base.numeral val ++ List.replicate n (ch ' '))) := by
  unfold standardText
  dsimp only
  generalize (if f.hasWidth = true then _ else 0) = n
  split
  · exact ⟨0, leadingZeros val f p base, n, by simp only [replicate_zero, nil_append, append_assoc]⟩
  · split
    · refine ⟨0, n + leadingZeros val f p base, 0, ?_⟩
      simp only [replicate_zero, nil_append, append_nil, ← replicate_append_replicate, append_assoc]
    · exact ⟨n, leadingZeros val f p base, 0, by simp only [replicate_zero, append_nil, append_assoc]⟩

theorem readBack_blanks (radix a : ℕ) (text : List UInt8) :
    readBack radix (List.replicate a (ch ' ') ++ text) = readBack radix text := by
  rw [readBack, dropWhile_append_of_pos (by simp)]
  rfl

theorem standardText_reads (val : ℕ) (f : Flags) (w p : ℕ) (base : Base) :
    readBack base.radix (standardText val f w p base) =
      if base = .decimal ∧ f.sign = some true then -(val : ℤ) else val := by
  obtain ⟨a, z, n, parts⟩ := standardText_parts val f w p base
  have number := magnitude_number base val z n
  have plain := readBack_number base (digitValue_number base val z) n
  rw [number] at plain
  rw [parts, readBack_blanks]
  generalize List.replicate z (ch '0') ++ base.numeral val ++ List.replicate n (ch ' ') = text at number plain ⊢
  cases base with
  | decimal =>
    unfold prefixOf
    dsimp only
    rcases sign : f.sign with _ | _ | _
    · simpa using plain
    · have positive : ¬ (Base.decimal = .decimal ∧ some false = some true) := by simp
      rw [if_neg positive]
      dsimp only
      by_cases plus : f.positiveSign = true
      · rw [if_pos plus]
        exact (readBack_cons (c := ch '+') (by decide) _).trans (congrArg Nat.cast number)
      · rw [if_neg plus]
        by_cases blank : f.positiveBlank = true
        · rw [if_pos blank]
          exact (readBack_blanks 10 1 text).trans plain
        · rw [if_neg blank]
          exact plain
    · have negative : Base.decimal = .decimal ∧ some true = some true := ⟨rfl, rfl⟩
      rw [if_pos negative]
      exact (readBack_cons (c := ch '-') (by decide) _).trans (congrArg (fun n : ℕ => -(n : ℤ)) number)
  | octal => simpa [prefixOf] using plain
  | hexadecimal capital =>
    unfold prefixOf
    dsimp only
    have unsigned : ¬ (Base.hexadecimal capital = .decimal ∧ f.sign = some true) := by simp
    rw [if_neg unsigned]
    split
    · cases capital with
      | true => exact (readBack_cons (c := ch '0') (by decide) _).trans (congrArg Nat.cast number)
      | false => exact (readBack_cons (c := ch '0') (by decide) _).trans (congrArg Nat.cast number)
    · exact plain

/-- There is neither a width nor a sign nor a zero of the alternate form for a value 0 with the precision 0, and with a
width the length of the text is an `int`. -/
def Writable (val : ℕ) (f : Flags) (w p : ℕ) (base : Base) : Prop :=
  (f.hasPrecision = true ∧ p = 0 ∧ val = 0 → prefixOf val f base = [] ∧ ¬ (base = .octal ∧ f.alternateForm = true) ∧
    (f.hasWidth = true → w = 0)) ∧
  (f.hasWidth = true → f.hasPrecision = true → (prefixOf val f base).length + p < 2 ^ 31)

theorem standardText_empty (hasPrecision : f.hasPrecision = true) : standardText 0 f w 0 base = [] ↔
    prefixOf 0 f base = [] ∧ ¬ (base = .octal ∧ f.alternateForm = true) ∧ (f.hasWidth = true → w = 0) := by
  have zeros : leadingZeros 0 f 0 base = if base = .octal ∧ f.alternateForm = true then 1 else 0 := by
    unfold leadingZeros
    rw [if_pos hasPrecision, Nat.zero_sub]
    simp
  have noZeros : ¬ (f.zeroPadded = true ∧ ¬ f.hasPrecision = true) := fun zeros => zeros.2 hasPrecision
  unfold standardText
  dsimp only
  rw [if_neg noZeros, numeral_zero, zeros]
  constructor
  · intro empty
    have length := congrArg List.length empty
    split at length
    all_goals
      simp only [length_append, length_replicate, length_nil] at length
      refine ⟨length_eq_zero_iff.mp (by omega), fun octal => ?_, fun hasWidth => ?_⟩
      · rw [if_pos octal] at length
        omega
      · rw [if_pos hasWidth] at length
        omega
  · rintro ⟨left, octal, width⟩
    rw [left, if_neg octal]
    cases hw : f.hasWidth with
    | false => simp
    | true =>
      rw [width hw]
      simp

/-- An integer is written as the C standard prescribes, and can be read back, exactly when it is writable; output
into a buffer is what there is room for of all the output. -/
theorem printf_standard (size : ℕ) (strings : UInt64 → List UInt8) (format : List UInt8) (args : ℕ → UInt64) :
    (∀ (val : UInt64) (f : Flags) (w p : ℕ) (base : Base), w < 2 ^ 31 → p < 2 ^ 31 →
      let text := doConversionInt val f (Int32.ofNat w) (Int32.ofNat p) (some base)
      (text = standardText val.toNat f w p base ∧ readBack base.radix text =
          if base = .decimal ∧ f.sign = some true then -(val.toNat : ℤ) else val.toNat) ↔
        Writable val.toNat f w p base) ∧
      let written := (vsnprintf size strings format args).1
      written.length ≤ size ∧ (0 < size → written = (output strings format args).take (size - 1) ++ [0]) := by
  refine ⟨fun val f w p base width small => ?_, ?_⟩
  · have zeroVal : val.toNat = 0 ↔ val = 0 := UInt64.toNat_inj (b := 0)
    have zeroPrecision : Int32.ofNat p = 0 ↔ p = 0 := by
      rw [← Int32.toInt_inj, Int32.toInt_ofNat_of_lt small]
      exact Int.natCast_eq_zero
    intro text
    have reads := standardText_reads val.toNat f w p base
    have only : (text = standardText val.toNat f w p base ∧ readBack base.radix text =
        if base = .decimal ∧ f.sign = some true then -(val.toNat : ℤ) else val.toNat) ↔
          text = standardText val.toNat f w p base :=
      ⟨And.left, fun same => ⟨same, same ▸ reads⟩⟩
    rw [only]
    by_cases empty : f.hasPrecision = true ∧ p = 0 ∧ val = 0
    · obtain ⟨hasPrecision, rfl, rfl⟩ := empty
      have none' : text = [] := if_pos ⟨hasPrecision, rfl, rfl⟩
      have left := length_prefixOf 0 f base
      rw [none', eq_comm]
      refine (standardText_empty hasPrecision).trans
        ⟨fun all => ⟨fun _ => all, fun _ _ => ?_⟩, fun all => all.1 ⟨hasPrecision, rfl, rfl⟩⟩
      change (prefixOf 0 f base).length + 0 < 2 ^ 31
      omega
    · have nonempty : ¬ (f.hasPrecision = true ∧ p = 0 ∧ val.toNat = 0) := by rwa [zeroVal]
      obtain ⟨most, least, precision⟩ := textLength_le f base val.toNat_lt small
      constructor
      · intro same
        refine ⟨fun all => (nonempty all).elim, fun hasWidth hasPrecision => ?_⟩
        by_contra large
        have enough := least hasPrecision
        exact doConversionInt_wraps width small empty hasWidth (by omega) same
      · rintro ⟨-, fits⟩
        refine doConversionInt_standard width small empty fun hasWidth => ?_
        by_contra large
        obtain ⟨hasPrecision, length⟩ := precision (by omega)
        have less := fits hasWidth hasPrecision
        omega
  · have is := vsnprintf_written size strings format args
    dsimp only
    rw [is]
    refine ⟨?_, fun some' => if_neg (by omega)⟩
    split
    · exact Nat.zero_le _
    · rw [length_append, length_take, length_singleton]
      omega

/-- `%5d` of 42. -/
theorem printf_standard_width :
    let f : Flags := { hasWidth := true, sign := some false }
    doConversionInt 42 f 5 0 (some .decimal) = standardText 42 f 5 0 .decimal ∧
      readBack 10 (doConversionInt 42 f 5 0 (some .decimal)) = 42 := by
  intro f
  have writable : Writable 42 f 5 0 .decimal :=
    ⟨fun all => (Bool.false_ne_true all.1).elim, fun _ no => (Bool.false_ne_true no).elim⟩
  exact ((printf_standard 0 (fun _ => []) [] fun _ => 0).1 42 f 5 0 .decimal (by decide) (by decide)).mpr writable

/-- `%5.0d` of 0 should be five blanks. -/
theorem precision_zero :
    let f : Flags := { hasWidth := true, hasPrecision := true }
    parseFormat (str "5.0d") = some (⟨f, .int, 5, 0⟩, []) ∧
      doConversionInt 0 { f with sign := some false } 5 0 (some .decimal) = [] ∧
      standardText 0 { f with sign := some false } 5 0 .decimal = str "     " :=
  ⟨rfl, rfl, by decide⟩

end DisasVisor.Core.Printf
