import Mathlib.Data.Nat.Digits.Lemmas
import DisasVisor.Lib.Words

/-!
`core/printf.c`: how integers are written, and output into a buffer of a given size.
-/

namespace DisasVisor.Core.Printf

open List

def ch (c : Char) : UInt8 := UInt8.ofNat c.toNat

def str (s : String) : List UInt8 := s.toList.map ch

/-- The bits of `f` but for the conversion; `sign` is the bits `FLAG_MINUS` and `FLAG_PLUS`, one of which is set for a
signed value. -/
structure Flags where
  alternateForm : Bool := false
  zeroPadded : Bool := false
  leftAdjusted : Bool := false
  positiveBlank : Bool := false
  positiveSign : Bool := false
  hasWidth : Bool := false
  hasPrecision : Bool := false
  lengthShort : Bool := false
  lengthChar : Bool := false
  lengthLong : Bool := false
  lengthLonglong : Bool := false
  lengthIntmax : Bool := false
  lengthSize : Bool := false
  lengthPtrdiff : Bool := false
  sign : Option Bool := none

inductive Base
  | decimal
  | octal
  | hexadecimal (capital : Bool)
  deriving DecidableEq

inductive Conversion
  | int
  | uint (base : Base)
  | character
  | charp
  | voidp
  | none
  | unknown

structure Format where
  flags : Flags
  conversion : Conversion
  width : Int32
  precision : Int32

def parseFlags (f : Flags) : List UInt8 → Flags × List UInt8
  | [] => (f, [])
  | c :: rest =>
    if c = ch '#' then parseFlags { f with alternateForm := true } rest
    else if c = ch '0' then parseFlags { f with zeroPadded := true } rest
    else if c = ch '-' then parseFlags { f with leftAdjusted := true } rest
    else if c = ch ' ' then parseFlags { f with positiveBlank := true } rest
    else if c = ch '+' then parseFlags { f with positiveSign := true } rest
    else (f, c :: rest)

def isDigit (c : UInt8) : Bool := ch '0' ≤ c && c ≤ ch '9'

def parseNumber (n : Int32) : List UInt8 → Int32 × List UInt8
  | [] => (n, [])
  | c :: rest => if isDigit c then parseNumber (n * 10 + (c - ch '0').toUInt32.toInt32) rest else (n, c :: rest)

def parseLength (f : Flags) : List UInt8 → Flags × List UInt8
  | [] => (f, [])
  | c :: rest =>
    if c = ch 'h' then
      parseLength (if f.lengthShort then { f with lengthChar := true } else { f with lengthShort := true }) rest
    else if c = ch 'l' then
      parseLength (if f.lengthLong then { f with lengthLonglong := true } else { f with lengthLong := true }) rest
    else if c = ch 'j' then parseLength { f with lengthIntmax := true } rest
    else if c = ch 'z' then parseLength { f with lengthSize := true } rest
    else if c = ch 't' then parseLength { f with lengthPtrdiff := true } rest
    else (f, c :: rest)

def conversionOf (c : UInt8) : Conversion :=
  if c = ch 'd' ∨ c = ch 'i' then .int
  else if c = ch 'o' then .uint .octal
  else if c = ch 'u' then .uint .decimal
  else if c = ch 'X' then .uint (.hexadecimal true)
  else if c = ch 'x' then .uint (.hexadecimal false)
  else if c = ch 'c' then .character
  else if c = ch 's' then .charp
  else if c = ch 'p' then .voidp
  else if c = ch '%' then .none
  else .unknown

def parsePrecision (f : Flags) : List UInt8 → Flags × Int32 × List UInt8
  | [] => (f, 0, [])
  | c :: rest => if c = ch '.' then ({ f with hasPrecision := true }, parseNumber 0 rest) else (f, 0, c :: rest)

def parseFormat (format : List UInt8) : Option (Format × List UInt8) :=
  let (f, atWidth) := parseFlags {} format
  let (width, behind) := parseNumber 0 atWidth
  let (f, precision, behind) := parsePrecision { f with hasWidth := (atWidth.head?.map isDigit).getD false } behind
  match parseLength f behind with
  | (_, []) => none
  | (f, c :: rest) => some (⟨f, conversionOf c, width, precision⟩, rest)

/-- `sub10`, `sub8` and `sub16`: the powers of the base that an `unsigned long long` has, and 0. -/
def subtrahends (base count : ℕ) : List ℕ := (List.range count).reverse.map (base ^ ·) ++ [0]

def Base.radix : Base → ℕ
  | .decimal => 10
  | .octal => 8
  | .hexadecimal _ => 16

def Base.sub : Base → List ℕ
  | .decimal => subtrahends 10 20
  | .octal => subtrahends 8 22
  | .hexadecimal _ => subtrahends 16 16

def Base.chars : Base → List UInt8
  | .decimal => str "0123456789"
  | .octal => str "01234567"
  | .hexadecimal true => str "0123456789ABCDEF"
  | .hexadecimal false => str "0123456789abcdef"

def digitLoop (sub digit val : ℕ) : ℕ × ℕ :=
  if 0 < sub ∧ sub ≤ val then digitLoop sub (digit + 1) (val - sub) else (digit, val)
termination_by val

def digitsLoop (chars : List UInt8) : List ℕ → ℕ → List UInt8
  | [], _ => []
  | sub :: rest, val =>
    if sub = 0 then []
    else chars.getD (digitLoop sub 0 val).1 0 :: digitsLoop chars rest (digitLoop sub 0 val).2

def valconv (val : ℕ) (sub : List ℕ) (chars : List UInt8) : List UInt8 :=
  if val = 0 then [ch '0'] else digitsLoop chars (sub.dropWhile fun s => val < s) val

def times (n : Int32) (c : UInt8) : List UInt8 := List.replicate n.toUInt32.toNat c

def leftbuf (val : ℕ) (f : Flags) (leftzero : Int32) : Base → List UInt8
  | .decimal =>
    match f.sign with
    | some false => if f.positiveSign then str "+" else if f.positiveBlank then str " " else []
    | some true => str "-"
    | none => []
  | .octal => if f.alternateForm ∧ val ≠ 0 ∧ leftzero = 0 then str "0" else []
  | .hexadecimal capital => if f.alternateForm ∧ val ≠ 0 then str (if capital then "0X" else "0x") else []

/-- The characters that `do_conversion_int` passes to `func`, in their order; no base is `CONVERSION_CHARACTER`. -/
def doConversionInt (val : UInt64) (f : Flags) (width precision : Int32) : Option Base → List UInt8
  | none => [val.toUInt8]
  | some base =>
    if f.hasPrecision ∧ precision = 0 ∧ val = 0 then []
    else
      let digits := valconv val.toNat base.sub base.chars
      let len := Int32.ofNat digits.length
      let leftzero := if f.hasPrecision ∧ precision > len then precision - len else 0
      let leftbuf := leftbuf val.toNat f leftzero base
      let total := Int32.ofNat leftbuf.length + leftzero + len
      let spaces := if f.hasWidth ∧ width > total then width - total else 0
      let rightsp := if f.leftAdjusted then spaces else 0
      let leftsp := if f.leftAdjusted then 0 else spaces
      let zeros := f.zeroPadded ∧ ¬ f.hasPrecision
      times (if zeros then 0 else leftsp) (ch ' ') ++ leftbuf ++
        times (if zeros then leftzero + leftsp else leftzero) (ch '0') ++ digits ++ times rightsp (ch ' ')

def doConversionString (text : List UInt8) (f : Flags) (width precision : Int32) : List UInt8 :=
  let text := if f.hasPrecision then text.take precision.toInt.toNat else text
  let len := Int32.ofNat text.length
  let spaces := if f.hasWidth ∧ width > len then width - len else 0
  times (if f.leftAdjusted then 0 else spaces) (ch ' ') ++ text ++ times (if f.leftAdjusted then spaces else 0) (ch ' ')

/-- Whether `va_arg` takes 64 bits. -/
def Flags.wide (f : Flags) : Bool :=
  !f.lengthChar && !f.lengthShort &&
    (f.lengthLonglong || f.lengthLong || f.lengthIntmax || f.lengthSize || f.lengthPtrdiff)

def intArg (f : Flags) (arg : UInt64) : Flags × UInt64 :=
  let intval := if f.wide then arg.toInt64 else arg.toUInt32.toInt32.toInt64
  if intval < 0 then ({ f with sign := some true }, (-intval).toUInt64)
  else ({ f with sign := some false }, intval.toUInt64)

/-- What a conversion passes to `func`, and whether it takes an argument; `strings` are the strings in memory. -/
def convert (strings : UInt64 → List UInt8) (format : Format) (arg : UInt64) : List UInt8 × Bool :=
  let f := format.flags
  match format.conversion with
  | .none => (str "%", false)
  | .int => (doConversionInt (intArg f arg).2 (intArg f arg).1 format.width format.precision (some .decimal), true)
  | .character => (doConversionInt (intArg f arg).2 (intArg f arg).1 format.width format.precision none, true)
  | .uint base =>
    let uintval := if f.wide then arg else arg.toUInt32.toUInt64
    (doConversionInt uintval f format.width format.precision (some base), true)
  | .voidp =>
    let f := { f with alternateForm := true }
    (doConversionInt arg f format.width format.precision (some (.hexadecimal false)), true)
  | .charp => (doConversionString (if arg = 0 then str "(null)" else strings arg) f format.width format.precision, true)
  | .unknown => (doConversionString (str "FORMAT ERROR") {} 0 0, false)

theorem length_parseFlags (f : Flags) (format : List UInt8) : (parseFlags f format).2.length ≤ format.length := by
  fun_induction parseFlags f format <;> simp_all <;> omega

theorem length_parseNumber (n : Int32) (format : List UInt8) : (parseNumber n format).2.length ≤ format.length := by
  fun_induction parseNumber n format <;> simp_all; omega

theorem length_parseLength (f : Flags) (format : List UInt8) : (parseLength f format).2.length ≤ format.length := by
  fun_induction parseLength f format <;> simp_all <;> omega

theorem length_parsePrecision (f : Flags) (format : List UInt8) :
    (parsePrecision f format).2.2.length ≤ format.length := by
  cases format with
  | nil => exact Nat.le_refl 0
  | cons c rest =>
    rw [parsePrecision]
    split
    · exact Nat.le_succ_of_le (length_parseNumber 0 rest)
    · exact Nat.le_refl _

theorem length_parseFormat {format rest : List UInt8} {parsed : Format}
    (parses : parseFormat format = some (parsed, rest)) : rest.length < format.length := by
  unfold parseFormat at parses
  dsimp only at parses
  generalize atWidth : parseFlags {} format = flags at parses
  generalize atPrecision : parseNumber 0 flags.2 = width at parses
  generalize atLength : parsePrecision _ width.2 = precision at parses
  generalize atConversion : parseLength precision.1 precision.2.2 = last at parses
  have first := length_parseFlags {} format
  have second := length_parseNumber 0 flags.2
  have third := length_parsePrecision { flags.1 with hasWidth := (flags.2.head?.map isDigit).getD false } width.2
  have fourth := length_parseLength precision.1 precision.2.2
  rw [atWidth] at first
  rw [atPrecision] at second
  rw [atLength] at third
  rw [atConversion] at fourth
  obtain ⟨f, _ | ⟨c, rest'⟩⟩ := last
  · cases parses
  · cases parses
    rw [length_cons] at fourth
    omega

/-- What goes to `func`, piece by piece: a character of the format, which ends the loop when it is refused, or a
conversion, which does not. -/
def pieces (strings : UInt64 → List UInt8) (args : ℕ → UInt64) (i : ℕ) : List UInt8 → List (Bool × List UInt8)
  | [] => []
  | c :: rest =>
    if c = ch '%' then
      match parses : parseFormat rest with
      | none => []
      | some (format, behind) =>
        let (text, takes) := convert strings format (args i)
        (format.conversion matches .none, text) :: pieces strings args (if takes then i + 1 else i) behind
    else (true, [c]) :: pieces strings args i rest
termination_by format => format.length
decreasing_by
  · exact Nat.lt_succ_of_lt (length_parseFormat parses)
  · exact Nat.lt_succ_self _

variable {σ : Type}

def putAll (func : UInt8 → σ → Option σ) : List UInt8 → σ → ℕ → σ × ℕ × Bool
  | [], data, n => (data, n, true)
  | c :: rest, data, n =>
    match func c data with
    | some data => putAll func rest data (n + 1)
    | none => (data, n, false)

def putPieces (func : UInt8 → σ → Option σ) : List (Bool × List UInt8) → σ → ℕ → σ × ℕ
  | [], data, n => (data, n)
  | (stops, text) :: rest, data, n =>
    let (data, n, all) := putAll func text data n
    if stops ∧ all = false then (data, n) else putPieces func rest data n

def doPrintf (strings : UInt64 → List UInt8) (format : List UInt8) (args : ℕ → UInt64)
    (func : UInt8 → σ → Option σ) (data : σ) : σ × ℕ :=
  putPieces func (pieces strings args 0 format) data 0

structure SnputcharData where
  written : List UInt8
  len : ℕ

def doSnputchar (c : UInt8) (p : SnputcharData) : Option SnputcharData :=
  if p.len = 0 then none else some ⟨p.written ++ [if p.len - 1 = 0 then 0 else c], p.len - 1⟩

def vsnprintf (size : ℕ) (strings : UInt64 → List UInt8) (format : List UInt8) (args : ℕ → UInt64) : List UInt8 × ℕ :=
  let (data, r) := doPrintf strings format args doSnputchar ⟨[], size⟩
  (((doSnputchar 0 data).getD data).written, r)

def collect (c : UInt8) (out : List UInt8) : Option (List UInt8) := some (out ++ [c])

def output (strings : UInt64 → List UInt8) (format : List UInt8) (args : ℕ → UInt64) : List UInt8 :=
  (doPrintf strings format args collect []).1

structure Holds (size : ℕ) (out : List UInt8) (p : SnputcharData) : Prop where
  len : p.len = size - out.length
  written : p.written = if out.length < size then out else out.take (size - 1) ++ if size = 0 then [] else [0]

variable {size : ℕ} {out text : List UInt8} {p : SnputcharData}

theorem Holds.full (holds : Holds size out p) (full : size ≤ out.length) : Holds size (out ++ text) p := by
  have longer : ¬ (out ++ text).length < size := by
    rw [length_append]
    omega
  refine ⟨?_, ?_⟩
  · rw [holds.len, length_append]
    omega
  · rw [holds.written, if_neg (Nat.not_lt.mpr full), if_neg longer, take_append_of_le_length (by omega)]

theorem Holds.put (holds : Holds size out p) (c : UInt8) :
    (∃ p', doSnputchar c p = some p' ∧ Holds size (out ++ [c]) p' ∧ out.length < size) ∨
      doSnputchar c p = none ∧ size ≤ out.length := by
  have len := holds.len
  unfold doSnputchar
  by_cases full : size ≤ out.length
  · exact .inr ⟨if_pos (by omega), full⟩
  · have written := holds.written
    rw [if_pos (by omega)] at written
    refine .inl ⟨_, if_neg (by omega), ⟨?_, ?_⟩, by omega⟩
    · dsimp only
      rw [length_append, length_singleton]
      omega
    · dsimp only
      rw [length_append, length_singleton, written]
      by_cases last : out.length + 1 < size
      · rw [if_pos last, if_neg (by omega)]
      · rw [if_neg last, if_pos (by omega), if_neg (by omega), take_append_of_le_length (by omega),
          take_of_length_le (by omega)]

theorem putAll_collect (text : List UInt8) : ∀ (out : List UInt8) (n : ℕ),
    putAll collect text out n = (out ++ text, n + text.length, true) := by
  induction text with
  | nil => simp [putAll]
  | cons c rest ih =>
    intro out n
    rw [putAll, collect]
    dsimp only
    rw [ih, append_assoc, length_cons, Nat.add_right_comm, Nat.add_assoc]
    rfl

theorem Holds.putAll (text : List UInt8) : ∀ {out : List UInt8} {p : SnputcharData} (n : ℕ), Holds size out p →
    Holds size (out ++ text) (putAll doSnputchar text p n).1 ∧
      ((putAll doSnputchar text p n).2.2 = false → size ≤ (out ++ text).length) := by
  induction text with
  | nil =>
    intro out p n holds
    rw [append_nil]
    exact ⟨holds, fun no => by cases no⟩
  | cons c rest ih =>
    intro out p n holds
    rw [Printf.putAll]
    rcases holds.put c with ⟨p', puts, next, -⟩ | ⟨refused, full⟩
    · rw [puts]
      have after := ih (n + 1) next
      rwa [append_assoc] at after
    · rw [refused]
      exact ⟨holds.full full, fun _ => by rw [length_append]; omega⟩

theorem putPieces_collect (list : List (Bool × List UInt8)) : ∀ (out : List UInt8) (n : ℕ),
    (putPieces collect list out n).1 = out ++ list.flatMap Prod.snd := by
  induction list with
  | nil => simp [putPieces]
  | cons piece rest ih =>
    obtain ⟨stops, text⟩ := piece
    intro out n
    simp [putPieces, putAll_collect, ih]

theorem Holds.putPieces (list : List (Bool × List UInt8)) : ∀ {out : List UInt8} {p : SnputcharData} (n : ℕ),
    Holds size out p → Holds size (out ++ list.flatMap Prod.snd) (putPieces doSnputchar list p n).1 := by
  induction list with
  | nil =>
    intro out p n holds
    rwa [flatMap_nil, append_nil]
  | cons piece rest ih =>
    obtain ⟨stops, text⟩ := piece
    intro out p n holds
    obtain ⟨next, refused⟩ := holds.putAll text n
    rw [Printf.putPieces, flatMap_cons, ← append_assoc]
    dsimp only
    split
    · rename_i stopped
      exact next.full (refused stopped.2)
    · exact ih _ next

theorem vsnprintf_written (size : ℕ) (strings : UInt64 → List UInt8) (format : List UInt8) (args : ℕ → UInt64) :
    (vsnprintf size strings format args).1 =
      if size = 0 then [] else (output strings format args).take (size - 1) ++ [0] := by
  have start : Holds size [] ⟨[], size⟩ := by
    refine ⟨rfl, ?_⟩
    cases size <;> rfl
  have holds := start.putPieces (pieces strings args 0 format) 0
  rw [nil_append] at holds
  have all : output strings format args = (pieces strings args 0 format).flatMap Prod.snd := putPieces_collect _ [] 0
  unfold vsnprintf doPrintf
  dsimp only
  rw [all]
  generalize (pieces strings args 0 format).flatMap Prod.snd = out at holds
  generalize (putPieces doSnputchar (pieces strings args 0 format) ⟨[], size⟩ 0) = result at holds ⊢
  rcases holds.put 0 with ⟨p', puts, next, less⟩ | ⟨refused, full⟩
  · have some' : size ≠ 0 := by omega
    have whole : out.take (size - 1) = out := take_of_length_le (by omega)
    rw [puts, Option.getD_some, next.written, if_neg some', if_neg some', whole]
    split
    · rfl
    · rename_i longer
      rw [length_append, length_singleton] at longer
      rw [take_append_of_le_length (by omega), whole]
  · rw [refused, Option.getD_none, holds.written, if_neg (Nat.not_lt.mpr full)]
    split
    · rename_i none'
      rw [none', Nat.zero_sub, take_zero, append_nil]
    · rfl

end DisasVisor.Core.Printf
