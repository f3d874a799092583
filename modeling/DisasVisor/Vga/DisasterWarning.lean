import DisasVisor.Lib.Traced
import Mathlib.Algebra.Group.Nat.Defs

/-!
The warning dialog of `core/vga.c`: `vga_display_disaster_warning` draws a
picture and then the message text letter by letter. The reads of the message
and the letters drawn are logged.
-/

namespace DisasVisor.Vga

open Traced (always_bind faultsOn_pure faultsOn_bind faultsOn_emit)

def letterWidth : Nat := 18

def letterHeight : Nat := 36

def maxNlettersInRow : Nat := 41

def maxNrowsInDialog : Nat := 12

inductive Event where
  | read (nth : Nat)
  | storedPicture (number x y : Nat)
  | storedLetter (asciiCode : UInt8) (x y : Nat)
  deriving DecidableEq

/-- Column and row of the next letter, `idx_x` and `idx_y` in the source. -/
structure Position where
  idxX : Nat
  idxY : Nat
  deriving DecidableEq

def isPrintable (c : UInt8) : Bool := 0x20 ≤ c && c ≤ 0x7e

def Position.advance (position : Position) (c : UInt8) : Position :=
  if isPrintable c then
    if maxNlettersInRow ≤ position.idxX + 1 then ⟨0, position.idxY + 1⟩
    else ⟨position.idxX + 1, position.idxY⟩
  else if c = 0x0a then ⟨0, position.idxY + 1⟩
  else position

def rowAfter (position : Position) (text : List UInt8) : Nat := (text.foldl Position.advance position).idxY

def drawLetter (x y : Nat) (position : Position) (c : UInt8) : Traced Event Unit :=
  if isPrintable c then
    Traced.emit (.storedLetter c ((x + 26 + letterWidth * position.idxX) % 2 ^ 32)
      ((y + 154 + letterHeight * position.idxY) % 2 ^ 32))
  else pure ()

/-- The `for` loop over the message. `msg` is the mapped memory from byte `nth` of
the message on, and `left` is `msg_len - nth`. -/
def textLoop (x y : Nat) : Nat → List UInt8 → Nat → Position → Traced Event Unit
  | _, _, 0, _ => pure ()
  | nth, [], _ + 1, _ => do
      Traced.emit (.read nth)
      Traced.fault
  | nth, c :: msg, left + 1, position => do
      Traced.emit (.read nth)
      drawLetter x y position c
      -- `break` when the dialog is full
      if maxNrowsInDialog ≤ (position.advance c).idxY then pure ()
      else textLoop x y (nth + 1) msg left (position.advance c)

def vgaDisplayDisasterWarning (dt x y : Nat) (msg : List UInt8) (msgLen : Nat) : Traced Event Int :=
  if dt = 1 then do
    Traced.emit (.storedPicture 1 x y)
    textLoop x y 0 msg msgLen ⟨0, 0⟩
    pure 0
  else if dt = 2 then do
    Traced.emit (.storedPicture 2 x y)
    textLoop x y 0 msg msgLen ⟨0, 0⟩
    pure 0
  else pure (-1)

def ReadsBelow (limit : Nat) : Event → Prop
  | .read nth => nth < limit
  | _ => True

theorem row_le_advance (position : Position) (c : UInt8) : position.idxY ≤ (position.advance c).idxY := by
  unfold Position.advance
  split
  · split
    · exact Nat.le_succ _
    · exact Nat.le_refl _
  · split
    · exact Nat.le_succ _
    · exact Nat.le_refl _

theorem row_le_rowAfter (position : Position) (text : List UInt8) : position.idxY ≤ rowAfter position text := by
  induction text generalizing position with
  | nil => exact Nat.le_refl _
  | cons c text ih => exact Nat.le_trans (row_le_advance position c) (ih (position.advance c))

@[simp] theorem always_drawLetter (limit x y : Nat) (position : Position) (c : UInt8) :
    Traced.Always (ReadsBelow limit) (drawLetter x y position c) := by
  unfold drawLetter
  split <;> simp [ReadsBelow]

theorem flow_drawLetter (x y : Nat) (position : Position) (c : UInt8) :
    (drawLetter x y position c).flow = .next () := by
  unfold drawLetter
  split <;> rfl

theorem always_textLoop (limit x y : Nat) (msg : List UInt8) :
    ∀ nth left position, limit ≤ nth + msg.length → position.idxY < maxNrowsInDialog →
      (Traced.Always (ReadsBelow limit) (textLoop x y nth msg left position) ↔
        left ≤ limit - nth ∨ maxNrowsInDialog ≤ rowAfter position (msg.take (limit - nth))) := by
  induction msg with
  | nil =>
    intro nth left position bound room
    cases left with
    | zero => simp [textLoop]
    | succ left =>
      simp only [textLoop, Traced.always_emit_bind, Traced.always_fault, ReadsBelow, and_true,
        List.take_nil, rowAfter, List.foldl_nil]
      simp only [List.length_nil] at bound
      omega
  | cons c msg ih =>
    intro nth left position bound room
    cases left with
    | zero => simp [textLoop]
    | succ left =>
      simp only [textLoop, Traced.always_emit_bind, ReadsBelow]
      rw [always_bind]
      simp only [always_drawLetter, flow_drawLetter, true_and, forall_const]
      by_cases inside : nth < limit
      · obtain ⟨rest, split⟩ : ∃ rest, limit - nth = rest + 1 := ⟨limit - nth - 1, by omega⟩
        rw [split, List.take_succ_cons]
        simp only [inside, true_and, rowAfter, List.foldl_cons]
        by_cases full : maxNrowsInDialog ≤ (position.advance c).idxY
        · have stays := row_le_rowAfter (position.advance c) (msg.take rest)
          simp only [full, if_true, Traced.always_pure, true_iff]
          exact .inr (Nat.le_trans full stays)
        · have step := ih (nth + 1) left (position.advance c)
            (by simp only [List.length_cons] at bound; omega) (by omega)
          have shorter : limit - (nth + 1) = rest := by omega
          rw [shorter] at step
          simp only [rowAfter] at step
          simp only [full, if_false, step]
          omega
      · have none : limit - nth = 0 := by omega
        simp only [inside, false_and, none, List.take_zero, rowAfter, List.foldl_nil, false_iff]
        omega

theorem faultsOn_textLoop (x y : Nat) (msg : List UInt8) :
    ∀ nth left position,
      Traced.FaultsOn (fun event => ¬ ReadsBelow (nth + msg.length) event)
        (textLoop x y nth msg left position) := by
  induction msg with
  | nil =>
    intro nth left position
    cases left with
    | zero => exact faultsOn_pure ()
    | succ left => simp [textLoop, Traced.FaultsOn, Traced.emit_bind, ReadsBelow]
  | cons c msg ih =>
    intro nth left position
    cases left with
    | zero => exact faultsOn_pure ()
    | succ left =>
      apply faultsOn_bind
      · exact faultsOn_emit (by simp [ReadsBelow])
      intro _ _
      apply faultsOn_bind
      · unfold drawLetter
        split
        · exact faultsOn_emit (by simp [ReadsBelow])
        · exact faultsOn_pure ()
      intro _ _
      split
      · exact faultsOn_pure ()
      · have longer : nth + (c :: msg).length = nth + 1 + msg.length := by
          simp only [List.length_cons]
          omega
        rw [longer]
        exact ih (nth + 1) left (position.advance c)

theorem always_vgaDisplayDisasterWarning (limit dt x y : Nat) (msg : List UInt8) (msgLen : Nat)
    (bound : limit ≤ msg.length) :
    Traced.Always (ReadsBelow limit) (vgaDisplayDisasterWarning dt x y msg msgLen) ↔
      (dt = 1 ∨ dt = 2 → msgLen ≤ limit ∨ maxNrowsInDialog ≤ rowAfter ⟨0, 0⟩ (msg.take limit)) := by
  have loop := always_textLoop limit x y msg 0 msgLen ⟨0, 0⟩ (by omega) (by decide)
  rw [Nat.sub_zero] at loop
  unfold vgaDisplayDisasterWarning
  split
  · rename_i earthquake
    simp [always_bind, ReadsBelow, loop, earthquake]
  · split
    · rename_i flood
      simp [always_bind, ReadsBelow, loop, flood]
    · rename_i notEarthquake notFlood
      simp [notEarthquake, notFlood]

theorem faultsOn_vgaDisplayDisasterWarning (dt x y : Nat) (msg : List UInt8) (msgLen : Nat) :
    Traced.FaultsOn (fun event => ¬ ReadsBelow msg.length event) (vgaDisplayDisasterWarning dt x y msg msgLen) := by
  have loop := faultsOn_textLoop x y msg 0 msgLen ⟨0, 0⟩
  rw [Nat.zero_add] at loop
  have drawn (number : Nat) : Traced.FaultsOn (fun event => ¬ ReadsBelow msg.length event) (do
      Traced.emit (.storedPicture number x y)
      textLoop x y 0 msg msgLen ⟨0, 0⟩
      pure (0 : Int)) := by
    apply faultsOn_bind
    · exact faultsOn_emit (by simp [ReadsBelow])
    · exact fun _ _ => faultsOn_bind loop fun _ _ => faultsOn_pure _
  unfold vgaDisplayDisasterWarning
  split
  · exact drawn 1
  · split
    · exact drawn 2
    · exact faultsOn_pure _

end DisasVisor.Vga
