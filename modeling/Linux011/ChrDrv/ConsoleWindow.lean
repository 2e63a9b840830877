import Linux011.ChrDrv.Console
import Mathlib.Tactic.Ring

/-!
# Console — the window in video memory

What every routine of the console leaves in the cells of the window, which is
read from `origin`, and where it writes. Safety and the comparison of the two
ways of scrolling are both read off this.

* `Safe` — the variables agree with each other, and the window lies in video
  memory;
* `Shows` — the window shows given cells;
* `Shows.scrup`, `Shows.scrdown`, … — one lemma for each routine.

The cells are numbered line by line; the cursor is at `y * columns + x`.
-/

namespace Linux011.ChrDrv

open Lib

namespace Console

/-- The variables agree with each other, and the window lies in video memory. -/
structure Safe (s : Con) : Prop where
  columns : 8 ∣ s.videoNumColumns
  colsPos : 0 < s.videoNumColumns
  x       : s.x ≤ s.videoNumColumns
  y       : s.y < s.videoNumLines
  pos     : s.pos = s.origin + 2 * (s.y * s.videoNumColumns + s.x)
  region  : s.top < s.bottom
  bottom  : s.bottom ≤ s.videoNumLines
  start   : s.videoMemStart ≤ s.origin
  even    : 2 ∣ s.origin - s.videoMemStart
  scrEnd  : s.scrEnd = s.origin + 2 * (s.videoNumLines * s.videoNumColumns)
  memEnd  : s.scrEnd ≤ s.videoMemEnd
  npar    : s.npar < npars
  written : s.mem.Within s.videoMemStart s.videoMemEnd

/-- The window shows `f`. -/
structure Shows (s : Con) (f : Nat → Word) : Prop extends Safe s where
  cell : ∀ k < s.videoNumLines * s.videoNumColumns, s.mem.word (s.origin + 2 * k) = f k

variable {s : Con} {f : Nat → Word} {a b w : Nat}

/-! ## Lines -/

/-- A line ends before the next one begins. -/
theorem row_le (w : Nat) (h : a < b) : a * w + w ≤ b * w := by
  rw [← Nat.succ_mul]
  exact Nat.mul_le_mul_right w h

theorem sizeRow_mul (s : Con) (a : Nat) : s.videoSizeRow * a = 2 * (a * s.videoNumColumns) := by
  show s.videoNumColumns * 2 * a = _
  ring

theorem mul_sizeRow (s : Con) (a : Nat) : a * s.videoSizeRow = 2 * (a * s.videoNumColumns) := by
  rw [Nat.mul_comm, sizeRow_mul]

/-- The double words that are moved when the lines from `a` up to `b` scroll. -/
theorem moved_add (hw : 8 ∣ w) (h : a < b) : a * w + w + 2 * ((b - a - 1) * w / 2) = b * w := by
  obtain ⟨c, rfl⟩ := hw
  have hhalf : (b - a - 1) * (8 * c) / 2 = (b - a - 1) * (4 * c) := by
    rw [show (b - a - 1) * (8 * c) = (b - a - 1) * (4 * c) * 2 by ring]
    exact Nat.mul_div_cancel _ (by omega)
  obtain ⟨d, rfl⟩ : ∃ d, b = a + 1 + d := ⟨b - a - 1, by omega⟩
  rw [hhalf, show a + 1 + d - a - 1 = d by omega]
  ring

theorem Safe.cols_le (h : Safe s) : 8 ≤ s.videoNumColumns := Nat.le_of_dvd h.colsPos h.columns

/-- The line of the cursor lies in the window. -/
theorem Safe.cursorRow (h : Safe s) :
    s.y * s.videoNumColumns + s.videoNumColumns ≤ s.videoNumLines * s.videoNumColumns :=
  row_le _ h.y

theorem Safe.withMem (h : Safe s) {m : Ram} (hm : m.Within s.videoMemStart s.videoMemEnd) :
    Safe { s with mem := m } :=
  ⟨h.columns, h.colsPos, h.x, h.y, h.pos, h.region, h.bottom, h.start, h.even, h.scrEnd, h.memEnd, h.npar, hm⟩

/-! ## Scrolling -/

theorem Shows.scrupCopy (h : Shows s f) :
    Shows (scrupCopy s) (shiftDown (s.top * s.videoNumColumns) (s.bottom * s.videoNumColumns) s.videoNumColumns
      s.videoEraseChar f) := by
  have hcx := moved_add h.columns h.region
  have hb := Nat.mul_le_mul_right s.videoNumColumns h.bottom
  have hw := h.cols_le
  have hstart := h.start
  have hend := h.memEnd
  have hscr := h.scrEnd
  have hdi := sizeRow_mul s s.top
  have hsi := sizeRow_mul s (s.top + 1)
  rw [Nat.succ_mul s.top] at hsi
  have hmem : (Console.scrupCopy s).mem = (s.mem.movsl (s.origin + 2 * (s.top * s.videoNumColumns))
      (s.origin + 2 * (s.top * s.videoNumColumns + s.videoNumColumns))
      ((s.bottom - s.top - 1) * s.videoNumColumns / 2)).stosw s.videoEraseChar
      (s.origin + 2 * (s.bottom * s.videoNumColumns - s.videoNumColumns)) s.videoNumColumns := by
    unfold Console.scrupCopy
    dsimp only
    rw [hdi, hsi]
    congr 1
    omega
  refine ⟨{ h.toSafe with written := ?_ }, ?_⟩
  · show Ram.Within (Console.scrupCopy s).mem _ _
    rw [hmem]
    exact (h.written.movsl (by omega) (by omega)).stosw (by omega) (by omega)
  · intro k hk
    have hk : k < s.videoNumLines * s.videoNumColumns := hk
    show (Console.scrupCopy s).mem.word (s.origin + 2 * k) = _
    rw [hmem, Ram.stosw_cell, Ram.movsl_cell _ _ _ _ (by omega)]
    unfold shiftDown fill
    split_ifs <;> try first | rfl | omega
    · rw [h.cell _ (by omega)]
      congr 1
      omega
    · exact h.cell k hk

theorem Shows.scrupOrigin (h : Shows s f) :
    Shows (scrupOrigin s) (shiftDown 0 (s.videoNumLines * s.videoNumColumns) s.videoNumColumns
      s.videoEraseChar f) := by
  have hcx := moved_add h.columns (show 0 < s.videoNumLines from Nat.zero_lt_of_lt h.y)
  have hw := h.cols_le
  have hstart := h.start
  have hend := h.memEnd
  have hscr := h.scrEnd
  have hrow : s.videoSizeRow = 2 * s.videoNumColumns := Nat.mul_comm _ _
  obtain ⟨o, ho⟩ := h.even
  have horigin : s.origin = s.videoMemStart + 2 * o := by omega
  unfold Console.scrupOrigin
  dsimp only
  rw [Nat.zero_mul, Nat.sub_zero] at hcx
  split
  · have hmem : (s.mem.movsl s.videoMemStart (s.origin + s.videoSizeRow)
        ((s.videoNumLines - 1) * s.videoNumColumns / 2)).stosw s.videoEraseChar
        (s.videoMemStart + 4 * ((s.videoNumLines - 1) * s.videoNumColumns / 2)) s.videoNumColumns =
        (s.mem.movsl (s.videoMemStart + 2 * 0) (s.videoMemStart + 2 * (o + s.videoNumColumns))
        ((s.videoNumLines - 1) * s.videoNumColumns / 2)).stosw s.videoEraseChar
        (s.videoMemStart + 2 * (s.videoNumLines * s.videoNumColumns - s.videoNumColumns)) s.videoNumColumns := by
      congr 2 <;> omega
    rw [hmem]
    refine ⟨⟨h.columns, h.colsPos, h.x, h.y, ?_, h.region, h.bottom, Nat.le_refl _, ?_, ?_, ?_, h.npar, ?_⟩, ?_⟩
    · have hpos := h.pos
      dsimp only
      omega
    · dsimp only
      rw [Nat.sub_self]
      exact Nat.dvd_zero 2
    · dsimp only
      omega
    · dsimp only
      omega
    · exact (h.written.movsl (by omega) (by omega)).stosw (by omega) (by omega)
    · intro k hk
      dsimp only at hk ⊢
      rw [Ram.stosw_cell, Ram.movsl_cell _ _ _ _ (by omega)]
      unfold shiftDown fill
      split_ifs <;> try first | rfl | omega
      rw [← h.cell _ (by omega)]
      congr 1
      omega
  · next hfits =>
    have hdi : s.scrEnd + s.videoSizeRow - s.videoSizeRow =
        s.origin + 2 * (s.videoNumLines * s.videoNumColumns) := by omega
    rw [hdi]
    refine ⟨⟨h.columns, h.colsPos, h.x, h.y, ?_, h.region, h.bottom, ?_, ?_, ?_, ?_, h.npar, ?_⟩, ?_⟩
    · have hpos := h.pos
      dsimp only
      omega
    · dsimp only
      omega
    · dsimp only
      omega
    · dsimp only
      omega
    · dsimp only
      omega
    · exact h.written.stosw (by omega) (by omega)
    · intro k hk
      dsimp only at hk ⊢
      rw [show s.origin + s.videoSizeRow + 2 * k = s.origin + 2 * (k + s.videoNumColumns) by omega, Ram.stosw_cell]
      unfold shiftDown fill
      split_ifs <;> try first | rfl | omega
      exact h.cell _ (by omega)

theorem Shows.scrup (h : Shows s f) :
    Shows (scrup s) (shiftDown (s.top * s.videoNumColumns) (s.bottom * s.videoNumColumns) s.videoNumColumns
      s.videoEraseChar f) := by
  unfold Console.scrup
  split
  · split
    · next hwhole =>
      rw [hwhole.1, hwhole.2, Nat.zero_mul]
      exact h.scrupOrigin
    · exact h.scrupCopy
  · exact h.scrupCopy

theorem Shows.scrdown (h : Shows s f) :
    Shows (scrdown s) (shiftUp (s.top * s.videoNumColumns) (s.bottom * s.videoNumColumns) s.videoNumColumns
      s.videoEraseChar f) := by
  have hcx := moved_add h.columns h.region
  have hb := Nat.mul_le_mul_right s.videoNumColumns h.bottom
  have hrow := row_le s.videoNumColumns h.region
  have hw := h.cols_le
  have hstart := h.start
  have hend := h.memEnd
  have hscr := h.scrEnd
  have hdi := sizeRow_mul s s.bottom
  have hsi := sizeRow_mul s (s.bottom - 1)
  rw [Nat.sub_mul, Nat.one_mul] at hsi
  have hmem : (Console.scrdown s).mem = (s.mem.movslDown (s.origin + 2 * (s.bottom * s.videoNumColumns - 2))
      (s.origin + 2 * (s.bottom * s.videoNumColumns - s.videoNumColumns) - 4)
      ((s.bottom - s.top - 1) * s.videoNumColumns / 2)).stoswDown s.videoEraseChar
      (s.origin + 2 * (s.top * s.videoNumColumns + s.videoNumColumns - 1)) s.videoNumColumns := by
    unfold Console.scrdown
    dsimp only
    rw [hdi, hsi]
    congr 1
    · congr 1
      omega
    · omega
  refine ⟨{ h.toSafe with written := ?_ }, ?_⟩
  · show Ram.Within (Console.scrdown s).mem _ _
    rw [hmem]
    exact (h.written.movslDown (by omega) (by omega)).stoswDown (by omega) (by omega)
  · intro k hk
    have hk : k < s.videoNumLines * s.videoNumColumns := hk
    show (Console.scrdown s).mem.word (s.origin + 2 * k) = _
    rw [hmem, Ram.stoswDown_cell _ _ _ _ (by omega)]
    unfold shiftUp fill
    by_cases hone : (s.bottom - s.top - 1) * s.videoNumColumns / 2 = 0
    · rw [hone, Ram.movslDown]
      split_ifs <;> try first | rfl | omega
      exact h.cell k hk
    · rw [show s.origin + 2 * (s.bottom * s.videoNumColumns - s.videoNumColumns) - 4 =
        s.origin + 2 * (s.bottom * s.videoNumColumns - s.videoNumColumns - 2) by omega,
        Ram.movslDown_cell _ _ _ (by omega) (by omega)]
      split_ifs <;> try first | rfl | omega
      · rw [← h.cell _ (by omega)]
        congr 2
        omega
      · exact h.cell k hk

/-! ## The cursor -/

theorem Shows.move (h : Shows s f) {x y p : Nat} (hx : x ≤ s.videoNumColumns) (hy : y < s.videoNumLines)
    (hp : p = s.origin + 2 * (y * s.videoNumColumns + x)) : Shows { s with x := x, y := y, pos := p } f :=
  ⟨{ h.toSafe with x := hx, y := hy, pos := hp }, h.cell⟩

/-! ## Characters -/

/-- A word is put into a cell of the window. -/
theorem Shows.store (h : Shows s f) {i : Nat} (hi : i < s.videoNumLines * s.videoNumColumns) (w : Word) :
    Shows { s with mem := s.mem.store (s.origin + 2 * i) w } (Function.update f i w) := by
  have hstart := h.start
  have hend := h.memEnd
  have hscr := h.scrEnd
  refine ⟨h.toSafe.withMem (h.written.store (by omega) (by omega)), ?_⟩
  intro k hk
  dsimp only at hk ⊢
  rw [Ram.store_cell, Function.update_apply, h.cell k hk]

theorem Shows.erase (h : Shows s f) {i n : Nat} (hi : i + n ≤ s.videoNumLines * s.videoNumColumns) :
    Shows (erase s (s.origin + 2 * i) n) (fill i (i + n) s.videoEraseChar f) := by
  have hstart := h.start
  have hend := h.memEnd
  have hscr := h.scrEnd
  refine ⟨h.toSafe.withMem (h.written.stosw (by omega) (by omega)), ?_⟩
  intro k hk
  unfold Console.erase at hk ⊢
  dsimp only at hk ⊢
  rw [Ram.stosw_cell, h.cell k hk, fill]

theorem insertLoop_cell (m : Ram) (old : Word) (b i n k : Nat) :
    (insertLoop m (b + 2 * i) old n).word (b + 2 * k) =
      if i < k ∧ k < i + n then m.word (b + 2 * (k - 1)) else if k = i ∧ 0 < n then old else m.word (b + 2 * k) := by
  induction n generalizing m old i with
  | zero => rw [if_neg (by omega), if_neg (by omega), insertLoop]
  | succ n ih =>
    have hrest := ih (m.store (b + 2 * i) old) (m.word (b + 2 * i)) (i + 1)
    rw [Ram.store_cell, Ram.store_cell] at hrest
    rw [insertLoop, show b + 2 * i + 2 = b + 2 * (i + 1) by omega, hrest]
    split_ifs with h1 h2 h3 h4 <;> try first | rfl | omega
    rw [show k - 1 = i by omega]

theorem within_insertLoop {m : Ram} {lo hi p n : Nat} (h : m.Within lo hi) (old : Word) (hlo : lo ≤ p)
    (hhi : p + 2 * n ≤ hi) : (insertLoop m p old n).Within lo hi := by
  induction n generalizing m p old with
  | zero => exact h
  | succ n ih => exact ih (h.store hlo (by omega)) _ (by omega) (by omega)

theorem deleteLoop_cell (m : Ram) (w : Word) (b i n k : Nat) :
    (deleteLoop m (b + 2 * i) w n).word (b + 2 * k) =
      if i ≤ k ∧ k < i + n then m.word (b + 2 * (k + 1)) else if k = i + n then w else m.word (b + 2 * k) := by
  induction n generalizing m i with
  | zero => rw [deleteLoop, Ram.store_cell, Nat.add_zero, if_neg (show ¬(i ≤ k ∧ k < i) by omega)]
  | succ n ih =>
    have hrest := ih (m.store (b + 2 * i) (m.word (b + 2 * (i + 1)))) (i + 1)
    rw [Ram.store_cell, Ram.store_cell] at hrest
    rw [deleteLoop, show b + 2 * i + 2 = b + 2 * (i + 1) by omega, hrest]
    split_ifs with h1 h2 h3 h4 <;> try first | rfl | omega
    rw [show k = i by omega]

theorem within_deleteLoop {m : Ram} {lo hi p n : Nat} (h : m.Within lo hi) (w : Word) (hlo : lo ≤ p)
    (hhi : p + 2 * n + 2 ≤ hi) : (deleteLoop m p w n).Within lo hi := by
  induction n generalizing m p with
  | zero => exact h.store hlo hhi
  | succ n ih => exact ih (h.store hlo (by omega)) (by omega) (by omega)

/-- The rest of the line moves to the right. -/
theorem Shows.insertChar (h : Shows s f) :
    Shows (insertChar s) (shiftUp (s.y * s.videoNumColumns + s.x) (s.y * s.videoNumColumns + s.videoNumColumns) 1
      s.videoEraseChar f) := by
  have hrow := h.cursorRow
  have hx := h.x
  have hstart := h.start
  have hend := h.memEnd
  have hscr := h.scrEnd
  have hcell := insertLoop_cell s.mem s.videoEraseChar s.origin (s.y * s.videoNumColumns + s.x) (s.videoNumColumns - s.x)
  have hwithin := within_insertLoop (p := s.origin + 2 * (s.y * s.videoNumColumns + s.x))
    (n := s.videoNumColumns - s.x) h.written s.videoEraseChar (by omega) (by omega)
  rw [← h.pos] at hcell hwithin
  unfold Console.insertChar
  refine ⟨h.toSafe.withMem hwithin, ?_⟩
  intro k hk
  dsimp only at hk ⊢
  rw [hcell]
  unfold shiftUp fill
  split_ifs <;> try first | rfl | omega
  · exact h.cell _ (by omega)
  · exact h.cell k hk

/-- The rest of the line moves to the left. -/
theorem Shows.deleteChar (h : Shows s f) (hx : s.x < s.videoNumColumns) :
    Shows (deleteChar s) (shiftDown (s.y * s.videoNumColumns + s.x) (s.y * s.videoNumColumns + s.videoNumColumns) 1
      s.videoEraseChar f) := by
  have hrow := h.cursorRow
  have hstart := h.start
  have hend := h.memEnd
  have hscr := h.scrEnd
  have hcell := deleteLoop_cell s.mem s.videoEraseChar s.origin (s.y * s.videoNumColumns + s.x) (s.videoNumColumns - s.x - 1)
  have hwithin := within_deleteLoop (p := s.origin + 2 * (s.y * s.videoNumColumns + s.x))
    (n := s.videoNumColumns - s.x - 1) h.written s.videoEraseChar (by omega) (by omega)
  rw [← h.pos] at hcell hwithin
  unfold Console.deleteChar
  rw [if_neg (by omega)]
  refine ⟨h.toSafe.withMem hwithin, ?_⟩
  intro k hk
  dsimp only at hk ⊢
  rw [hcell]
  unfold shiftDown fill
  split_ifs <;> try first | rfl | omega
  · exact h.cell _ (by omega)
  · exact h.cell k hk

end Console

end Linux011.ChrDrv
