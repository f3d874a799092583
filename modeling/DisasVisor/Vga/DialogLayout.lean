import DisasVisor.Vga.DisasterWarning

/-!
Where the letters of a warning are drawn: each in a cell of its own inside of the dialog.
-/

namespace DisasVisor.Vga

open List

/-- `rgb` is where the three bytes of the pixel are in the image. -/
structure FillRect where
  rgb : Nat
  x : Nat
  y : Nat

def vgaDisplayPicture (x y width height : Nat) : List FillRect :=
  (range height).flatMap fun yy => (range width).map fun xx =>
    ⟨yy * width * 3 + xx * 3, (x + xx) % 2 ^ 32, (y + yy) % 2 ^ 32⟩

def vgaDisplayStoredLetter (asciiCode : UInt8) (x y : Nat) : List FillRect :=
  if asciiCode < 0x20 ∨ asciiCode > 0x7e then [] else vgaDisplayPicture x y letterWidth letterHeight

structure Glyph where
  asciiCode : UInt8
  x : Nat
  y : Nat

def Glyph.pixels (g : Glyph) : List FillRect := vgaDisplayStoredLetter g.asciiCode g.x g.y

def glyphOf : Event → Option Glyph
  | .storedLetter asciiCode x y => some ⟨asciiCode, x, y⟩
  | _ => none

def glyphs (dt x y : Nat) (msg : List UInt8) : List Glyph :=
  (vgaDisplayDisasterWarning dt x y msg msg.length).collect glyphOf

/-- What should be drawn of a message: a prefix of it that ends before the message only where the rows do. -/
structure Layout (x y : Nat) (msg : List UInt8) (drawn : List Glyph) : Prop where
  inside : ∀ g ∈ drawn, ∀ p ∈ g.pixels, x ≤ p.x ∧ p.x < x + 800 ∧ y ≤ p.y ∧ p.y < y + 600
  apart : drawn.Pairwise fun g h => ∀ p ∈ g.pixels, ∀ q ∈ h.pixels, ¬ (p.x = q.x ∧ p.y = q.y)
  text : ∃ n ≤ msg.length, drawn.map Glyph.asciiCode = (msg.take n).filter isPrintable ∧
    (n < msg.length → maxNrowsInDialog ≤ rowAfter ⟨0, 0⟩ (msg.take n))

def Position.rank (position : Position) : Nat := position.idxY * maxNlettersInRow + position.idxX

structure Position.InDialog (position : Position) : Prop where
  column : position.idxX < maxNlettersInRow
  row : position.idxY < maxNrowsInDialog

def Position.glyph (x y : Nat) (cell : UInt8 × Position) : Glyph :=
  ⟨cell.1, (x + 26 + letterWidth * cell.2.idxX) % 2 ^ 32, (y + 154 + letterHeight * cell.2.idxY) % 2 ^ 32⟩

/-- The cells of the letters of `msg` from a position on, of which `n` bytes have been looked at. -/
structure Placed (position : Position) (msg : List UInt8) (n : Nat) (cells : List (UInt8 × Position)) : Prop where
  inDialog : ∀ cell ∈ cells, cell.2.InDialog
  later : ∀ cell ∈ cells, position.rank ≤ cell.2.rank
  sorted : cells.Pairwise fun first second => first.2.rank < second.2.rank
  letters : cells.map Prod.fst = (msg.take n).filter isPrintable
  looked : n ≤ msg.length
  full : n < msg.length → maxNrowsInDialog ≤ rowAfter position (msg.take n)

variable {x y : Nat} {position : Position} {c : UInt8} {msg : List UInt8} {n : Nat} {cells : List (UInt8 × Position)}

theorem advance_column (column : position.idxX < maxNlettersInRow) (c : UInt8) :
    (position.advance c).idxX < maxNlettersInRow := by
  unfold Position.advance maxNlettersInRow at *
  split
  · split
    · exact Nat.succ_pos 40
    · dsimp only
      omega
  · split
    · exact Nat.succ_pos 40
    · exact column

theorem rank_advance (column : position.idxX < maxNlettersInRow) (c : UInt8) :
    position.rank + (if isPrintable c then 1 else 0) ≤ (position.advance c).rank := by
  unfold Position.advance Position.rank maxNlettersInRow at *
  split
  · split
    · dsimp only
      omega
    · dsimp only
      omega
  · split
    · dsimp only
      omega
    · exact Nat.le_refl _

theorem Placed.nil (position : Position) : Placed position [] 0 [] where
  inDialog := fun _ none => (not_mem_nil none).elim
  later := fun _ none => (not_mem_nil none).elim
  sorted := Pairwise.nil
  letters := rfl
  looked := Nat.le_refl 0
  full := fun less => (Nat.lt_irrefl 0 less).elim

theorem Placed.cons (inDialog : position.InDialog) (placed : Placed (position.advance c) msg n cells) :
    Placed position (c :: msg) (n + 1) (if isPrintable c then (c, position) :: cells else cells) := by
  have goesOn := rank_advance inDialog.column c
  have full : n + 1 < (c :: msg).length → maxNrowsInDialog ≤ rowAfter position ((c :: msg).take (n + 1)) :=
    fun less => placed.full (Nat.lt_of_succ_lt_succ less)
  cases printable : isPrintable c with
  | true =>
    rw [printable, if_pos rfl] at goesOn
    refine ⟨?_, ?_, ?_, ?_, Nat.succ_le_succ placed.looked, full⟩
    · exact forall_mem_cons.mpr ⟨inDialog, placed.inDialog⟩
    · refine forall_mem_cons.mpr ⟨Nat.le_refl _, fun cell member => ?_⟩
      have later := placed.later cell member
      omega
    · refine Pairwise.cons (fun cell member => ?_) placed.sorted
      have later := placed.later cell member
      dsimp only
      omega
    · rw [if_pos rfl, map_cons, take_succ_cons, filter_cons_of_pos printable, placed.letters]
  | false =>
    rw [printable, if_neg Bool.false_ne_true] at goesOn
    refine ⟨placed.inDialog, fun cell member => ?_, placed.sorted, ?_, Nat.succ_le_succ placed.looked, full⟩
    · have later := placed.later cell member
      omega
    · rw [if_neg Bool.false_ne_true, take_succ_cons, filter_cons_of_neg (by simp [printable]), placed.letters]

theorem placed_stops (position : Position) (full : maxNrowsInDialog ≤ position.idxY) (msg : List UInt8) :
    Placed position msg 0 [] where
  inDialog := fun _ none => (not_mem_nil none).elim
  later := fun _ none => (not_mem_nil none).elim
  sorted := Pairwise.nil
  letters := rfl
  looked := Nat.zero_le _
  full := fun _ => full

theorem collect_drawLetter (x y : Nat) (position : Position) (c : UInt8) (rest : Unit → Traced Event Unit) :
    (drawLetter x y position c >>= rest).collect glyphOf =
      (if isPrintable c then [Position.glyph x y (c, position)] else []) ++ (rest ()).collect glyphOf := by
  unfold drawLetter
  split
  · rfl
  · rw [pure_bind]
    rfl

theorem collect_bind_pure (run : Traced Event Unit) :
    (run >>= fun _ => pure (0 : Int)).collect glyphOf = run.collect glyphOf := by
  obtain ⟨flow, trace⟩ := run
  cases flow with
  | next => exact congrArg (filterMap glyphOf) (append_nil trace)
  | returned => rfl
  | fault => rfl

theorem textLoop_placed (x y : Nat) (msg : List UInt8) : ∀ nth {position : Position}, position.InDialog →
    ∃ n cells, Placed position msg n cells ∧
      (textLoop x y nth msg msg.length position).collect glyphOf = cells.map (Position.glyph x y) := by
  induction msg with
  | nil => exact fun _ position _ => ⟨0, [], Placed.nil position, rfl⟩
  | cons c msg ih =>
    intro nth position inDialog
    have both : ∃ n cells, Placed (position.advance c) msg n cells ∧
        (if maxNrowsInDialog ≤ (position.advance c).idxY then pure ()
          else textLoop x y (nth + 1) msg msg.length (position.advance c) : Traced Event Unit).collect glyphOf =
        cells.map (Position.glyph x y) := by
      by_cases full : maxNrowsInDialog ≤ (position.advance c).idxY
      · rw [if_pos full]
        exact ⟨0, [], placed_stops _ full msg, rfl⟩
      · rw [if_neg full]
        exact ih (nth + 1) ⟨advance_column inDialog.column c, Nat.not_le.mp full⟩
    obtain ⟨n, cells, placed, rest⟩ := both
    refine ⟨n + 1, _, placed.cons inDialog, ?_⟩
    rw [length_cons, textLoop, Traced.emit_bind]
    refine (collect_drawLetter x y position c _).trans ?_
    rw [rest]
    split
    · rfl
    · rfl

theorem mem_vgaDisplayPicture {x y width height : Nat} {p : FillRect} (member : p ∈ vgaDisplayPicture x y width height)
    (fitsX : x + width ≤ 2 ^ 32) (fitsY : y + height ≤ 2 ^ 32) :
    x ≤ p.x ∧ p.x < x + width ∧ y ≤ p.y ∧ p.y < y + height := by
  obtain ⟨yy, below, line⟩ := mem_flatMap.mp member
  obtain ⟨xx, left, rfl⟩ := mem_map.mp line
  rw [mem_range] at below left
  dsimp only
  rw [Nat.mod_eq_of_lt (by omega), Nat.mod_eq_of_lt (by omega)]
  omega

theorem mem_pixels {cell : UInt8 × Position} (inDialog : cell.2.InDialog) (fitsX : x + 800 < 2 ^ 32)
    (fitsY : y + 600 < 2 ^ 32) {p : FillRect} (member : p ∈ (Position.glyph x y cell).pixels) :
    x + 26 + letterWidth * cell.2.idxX ≤ p.x ∧ p.x < x + 26 + letterWidth * (cell.2.idxX + 1) ∧
      y + 154 + letterHeight * cell.2.idxY ≤ p.y ∧ p.y < y + 154 + letterHeight * (cell.2.idxY + 1) := by
  obtain ⟨column, row⟩ := inDialog
  unfold Glyph.pixels vgaDisplayStoredLetter at member
  unfold maxNlettersInRow at column
  unfold maxNrowsInDialog at row
  split at member
  · exact (not_mem_nil member).elim
  · unfold Position.glyph letterWidth letterHeight at *
    dsimp only at member
    rw [Nat.mod_eq_of_lt (by omega), Nat.mod_eq_of_lt (by omega)] at member
    have bounds := mem_vgaDisplayPicture member (by omega) (by omega)
    omega

theorem glyphs_eq (dt x y : Nat) (msg : List UInt8) : glyphs dt x y msg =
    if dt = 1 ∨ dt = 2 then (textLoop x y 0 msg msg.length ⟨0, 0⟩).collect glyphOf else [] := by
  have drawn (number : Nat) : (do
      Traced.emit (.storedPicture number x y)
      textLoop x y 0 msg msg.length ⟨0, 0⟩
      pure (0 : Int) : Traced Event Int).collect glyphOf = (textLoop x y 0 msg msg.length ⟨0, 0⟩).collect glyphOf := by
    rw [Traced.emit_bind]
    exact collect_bind_pure _
  unfold glyphs vgaDisplayDisasterWarning
  split
  · rename_i earthquake
    rw [if_pos (.inl earthquake), drawn]
  · rename_i notEarthquake
    split
    · rename_i flood
      rw [if_pos (.inr flood), drawn]
    · rename_i notFlood
      rw [if_neg (by rintro (one | two); exacts [notEarthquake one, notFlood two])]
      rfl

/-- The letters of an earthquake or a flood are laid out in the dialog; of another disaster nothing is drawn. -/
theorem dialog_layout (dt x y : Nat) (msg : List UInt8) (fitsX : x + 800 < 2 ^ 32) (fitsY : y + 600 < 2 ^ 32) :
    (dt = 1 ∨ dt = 2 → Layout x y msg (glyphs dt x y msg)) ∧ (¬ (dt = 1 ∨ dt = 2) → glyphs dt x y msg = []) := by
  rw [glyphs_eq]
  refine ⟨fun known => ?_, fun unknown => if_neg unknown⟩
  obtain ⟨n, cells, placed, drawn⟩ := @textLoop_placed x y msg 0 ⟨0, 0⟩ ⟨by decide, by decide⟩
  rw [if_pos known, drawn]
  refine ⟨?_, ?_, n, placed.looked, ?_, placed.full⟩
  · intro g member p pixel
    obtain ⟨cell, among, rfl⟩ := mem_map.mp member
    have inDialog := placed.inDialog cell among
    have bounds := mem_pixels inDialog fitsX fitsY pixel
    obtain ⟨column, row⟩ := inDialog
    unfold letterWidth letterHeight maxNlettersInRow maxNrowsInDialog at *
    omega
  · refine pairwise_map.mpr (placed.sorted.imp_of_mem ?_)
    rintro first second firstIn secondIn less p pixel q pixel' ⟨sameX, sameY⟩
    have here := mem_pixels (placed.inDialog first firstIn) fitsX fitsY pixel
    have there := mem_pixels (placed.inDialog second secondIn) fitsX fitsY pixel'
    have left := (placed.inDialog first firstIn).column
    have right := (placed.inDialog second secondIn).column
    unfold letterWidth letterHeight Position.rank maxNlettersInRow at *
    omega
  · rw [map_map]
    exact placed.letters

/-- Two letters and a line break at the corner of the screen. -/
theorem dialog_layout_flood : Layout 0 0 [0x41, 0x0a, 0x42] (glyphs 2 0 0 [0x41, 0x0a, 0x42]) :=
  (dialog_layout 2 0 0 [0x41, 0x0a, 0x42] (by decide) (by decide)).1 (.inr rfl)

/-- There is no disaster of type 3, and its letter is not drawn although all rows are left. -/
theorem unknown_disaster : ¬ Layout 0 0 [0x41] (glyphs 3 0 0 [0x41]) := by
  rintro ⟨-, -, n, atMost, letters, full⟩
  have none : glyphs 3 0 0 [0x41] = [] := rfl
  rw [none] at letters
  match n, atMost with
  | 0, _ => exact absurd (full (Nat.succ_pos 0)) (by decide)
  | 1, _ => exact absurd letters (by decide)

end DisasVisor.Vga
